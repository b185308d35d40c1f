import Taskq.Lib.Shlex

/-!
# Taskq.Api.Schemas

`TaskCreate` (`api/schemas.py`): what a task may be called and what it may run.

Both fields are checked alike: not empty, at most 1000 characters, and free of the
blacklisted ones. Quotes and backslashes are among those, so an accepted command is
plain text to the tokeniser (`TaskCreate.command_plain`).
-/

namespace Taskq

/-- `MAX_FIELD_LENGTH`. -/
def maxFieldLength : ℕ := 1000

/-- `_INJECTION_BLACKLIST`. -/
def injectionBlacklist : List Char :=
  [';', '\'', '"', '\x60', '\\', '$', '|', '&', '<', '>', '\n', '\r', '\x00']

/-- What `Field` and `_check_text` require of a field. -/
def AcceptedText (value : String) : Prop :=
  1 ≤ value.length ∧ value.length ≤ maxFieldLength ∧
    ∀ c ∈ value.toList, c ∉ injectionBlacklist

instance (value : String) : Decidable (AcceptedText value) :=
  haveI : Decidable (∀ c ∈ value.toList, c ∉ injectionBlacklist) := List.decidableBAll _ _
  inferInstanceAs (Decidable (_ ∧ _ ∧ _))

/-- A validated body of `POST /v1/tasks`. -/
structure TaskCreate where
  name : String
  command : String
  name_accepted : AcceptedText name
  command_accepted : AcceptedText command

namespace TaskCreate

theorem command_plain (body : TaskCreate) : Shlex.Plain body.command.toList := by
  intro c hc
  have hblack := body.command_accepted.2.2 c hc
  refine ⟨?_, ?_⟩
  · rintro rfl
    exact hblack (by decide)
  · intro hquote
    rcases hquote with rfl | rfl
    · exact hblack (by decide)
    · exact hblack (by decide)

/-- The only whitespace an accepted command can hold is spaces and tabs. -/
theorem command_space (body : TaskCreate) {c : Char} (hc : c ∈ body.command.toList) :
    Shlex.IsSpace c ↔ c = ' ' ∨ c = '\t' := by
  have hblack := body.command_accepted.2.2 c hc
  refine ⟨?_, ?_⟩
  · intro hspace
    rcases hspace with rfl | rfl | rfl | rfl
    · exact Or.inl rfl
    · exact Or.inr rfl
    · exact absurd (by decide) hblack
    · exact absurd (by decide) hblack
  · intro hspace
    rcases hspace with rfl | rfl
    · exact Or.inl rfl
    · exact Or.inr (Or.inl rfl)

end TaskCreate

end Taskq
