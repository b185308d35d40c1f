import Mathlib.Data.List.Basic

/-!
# Taskq.Lib.Shlex

`shlex.split` in POSIX mode, comments off: the lexer as a fold over the characters.

Between two characters the lexer is in one of four modes, with the token read so
far and whether a part of it was quoted: `''` is a token, the empty run between two
spaces is not. Whitespace ends a token, quotes and backslashes do not reach the
output, and a text that ends inside a quotation or after a backslash is an error.

For a text without quotes and backslashes only the two plain modes occur
(`split_plain`): nothing is an error, and no token comes out exactly when every
character is whitespace. The tokens are then the words between the whitespace
(`split_eq_words`).
-/

namespace Shlex

/-- Where the lexer is. -/
inductive Mode
  /-- Between tokens. -/
  | space
  /-- In a token. -/
  | word
  /-- Inside a quotation that `q` closes. -/
  | quote (q : Char)
  /-- After a backslash; `outer` is where it stood. -/
  | escape (outer : Option Char)
  deriving DecidableEq, Repr

/-- The lexer between two characters. -/
structure Lexer where
  mode : Mode
  token : List Char
  quoted : Bool
  tokens : List (List Char)
  deriving DecidableEq, Repr

def start : Lexer where
  mode := .space
  token := []
  quoted := false
  tokens := []

/-- `shlex.whitespace`. -/
def IsSpace (c : Char) : Prop := c = ' ' ∨ c = '\t' ∨ c = '\r' ∨ c = '\n'

instance (c : Char) : Decidable (IsSpace c) := inferInstanceAs (Decidable (_ ∨ _))

/-- `shlex.quotes`. -/
def IsQuote (c : Char) : Prop := c = '\'' ∨ c = '"'

instance (c : Char) : Decidable (IsQuote c) := inferInstanceAs (Decidable (_ ∨ _))

namespace Lexer

/-- A token is complete: one that is empty counts when a part of it was quoted. -/
def emit (s : Lexer) : Lexer where
  mode := .space
  token := []
  quoted := false
  tokens := if s.token = [] ∧ s.quoted = false then s.tokens else s.tokens ++ [s.token]

/-- One more character of the token. -/
def push (s : Lexer) (mode : Mode) (cs : List Char) : Lexer where
  mode := mode
  token := s.token ++ cs
  quoted := s.quoted
  tokens := s.tokens

/-- `read_token` on one character. -/
def step (s : Lexer) (c : Char) : Lexer :=
  match s.mode with
  | .space | .word =>
      if IsSpace c then s.emit
      else if c = '\\' then s.push (.escape none) []
      else if IsQuote c then s.push (.quote c) []
      else s.push .word [c]
  | .quote q =>
      if c = q then { s.push .word [] with quoted := true }
      else if c = '\\' ∧ q = '"' then { s.push (.escape (some q)) [] with quoted := true }
      else { s.push (.quote q) [c] with quoted := true }
  | .escape none => s.push .word [c]
  | .escape (some q) =>
      -- inside quotes a backslash only escapes itself and the closing quote
      if c ≠ '\\' ∧ c ≠ q then s.push (.quote q) ['\\', c]
      else s.push (.quote q) [c]

end Lexer

/-- What `shlex.split` raises. -/
inductive LexError
  | noClosingQuotation
  | noEscapedCharacter
  deriving DecidableEq, Repr

/-- The end of the text. -/
def finish (s : Lexer) : Except LexError (List (List Char)) :=
  match s.mode with
  | .space | .word => .ok s.emit.tokens
  | .quote _ => .error .noClosingQuotation
  | .escape _ => .error .noEscapedCharacter

/-- `shlex.split`. -/
def split (text : List Char) : Except LexError (List (List Char)) :=
  finish (text.foldl Lexer.step start)

/-! ### Texts without quotes and backslashes -/

/-- No quotation mark and no backslash. -/
def Plain (text : List Char) : Prop := ∀ c ∈ text, c ≠ '\\' ∧ ¬ IsQuote c

/-- Outside of quotations and escapes. -/
def Lexer.Unquoted (s : Lexer) : Prop := (s.mode = .space ∨ s.mode = .word) ∧ s.quoted = false

/-- Something was read: a token is complete or begun. -/
def Lexer.Nonempty (s : Lexer) : Prop := s.tokens ≠ [] ∨ s.token ≠ []

theorem Lexer.step_unquoted {s : Lexer} (h : s.Unquoted) {c : Char} (hc : c ≠ '\\' ∧ ¬ IsQuote c) :
    s.step c = if IsSpace c then s.emit else s.push .word [c] := by
  unfold Lexer.step
  rcases h.1 with hmode | hmode
  · simp [hmode, hc.1, hc.2]
  · simp [hmode, hc.1, hc.2]

theorem Lexer.emit_nonempty {s : Lexer} (h : s.quoted = false) :
    s.emit.tokens ≠ [] ↔ s.Nonempty := by
  unfold Lexer.emit Lexer.Nonempty
  by_cases htoken : s.token = []
  · simp [htoken, h]
  · simp [htoken]

theorem Lexer.Unquoted.step {s : Lexer} (h : s.Unquoted) {c : Char}
    (hc : c ≠ '\\' ∧ ¬ IsQuote c) : (s.step c).Unquoted := by
  rw [Lexer.step_unquoted h hc]
  split_ifs
  · exact ⟨Or.inl rfl, rfl⟩
  · exact ⟨Or.inr rfl, h.2⟩

theorem Lexer.Unquoted.step_nonempty {s : Lexer} (h : s.Unquoted) {c : Char}
    (hc : c ≠ '\\' ∧ ¬ IsQuote c) : (s.step c).Nonempty ↔ s.Nonempty ∨ ¬ IsSpace c := by
  rw [Lexer.step_unquoted h hc]
  split_ifs with hspace
  · have htokens : s.emit.Nonempty ↔ s.emit.tokens ≠ [] := by simp [Lexer.Nonempty, Lexer.emit]
    rw [htokens, Lexer.emit_nonempty h.2]
    simp [hspace]
  · simp [Lexer.Nonempty, Lexer.push, hspace]

/-- Reading a plain text, from anywhere outside of quotations. -/
theorem foldl_plain {text : List Char} (htext : Plain text) {s : Lexer} (h : s.Unquoted) :
    (text.foldl Lexer.step s).Unquoted ∧
      ((text.foldl Lexer.step s).Nonempty ↔ s.Nonempty ∨ ∃ c ∈ text, ¬ IsSpace c) := by
  induction text generalizing s with
  | nil => exact ⟨h, by simp⟩
  | cons c text ih =>
      have hc := htext c List.mem_cons_self
      obtain ⟨hunquoted, hnonempty⟩ :=
        ih (fun d hd => htext d (List.mem_cons_of_mem _ hd)) (h.step hc)
      refine ⟨hunquoted, ?_⟩
      rw [List.foldl_cons, hnonempty, h.step_nonempty hc]
      simp only [List.mem_cons, exists_eq_or_imp]
      tauto

/-- **A plain text always splits, and gives a token exactly when some character of it
is not whitespace.** -/
theorem split_plain {text : List Char} (htext : Plain text) :
    ∃ argv, split text = .ok argv ∧ (argv ≠ [] ↔ ∃ c ∈ text, ¬ IsSpace c) := by
  obtain ⟨⟨hmode, hquoted⟩, hnonempty⟩ :=
    foldl_plain htext (s := start) ⟨Or.inl rfl, rfl⟩
  have hstart : ¬ start.Nonempty := by simp [Lexer.Nonempty, start]
  refine ⟨(text.foldl Lexer.step start).emit.tokens, ?_, ?_⟩
  · unfold split finish
    rcases hmode with hmode | hmode <;> rw [hmode]
  · rw [Lexer.emit_nonempty hquoted, hnonempty]
    tauto

/-! ### The words of a plain text -/

/-- The longest runs of characters that are not whitespace. -/
def words (text : List Char) : List (List Char) :=
  (text.splitOnP fun c => IsSpace c).filter (· ≠ [])

theorem emit_tokens {s : Lexer} (h : s.quoted = false) :
    s.emit.tokens = s.tokens ++ [s.token].filter (· ≠ []) := by
  unfold Lexer.emit
  by_cases htoken : s.token = []
  · simp [htoken, h]
  · simp [htoken]

/-- Reading a plain text from anywhere outside of quotations: the token begun goes on to the
first whitespace. -/
theorem foldl_tokens {text : List Char} (htext : Plain text) {s : Lexer} (h : s.Unquoted) :
    (text.foldl Lexer.step s).emit.tokens =
      s.tokens ++
        ((text.splitOnP fun c => IsSpace c).modifyHead (s.token ++ ·)).filter (· ≠ []) := by
  induction text generalizing s with
  | nil =>
      rw [List.foldl_nil, emit_tokens h.2, List.splitOnP_nil, List.modifyHead_cons,
        List.append_nil]
  | cons c text ih =>
      have hc := htext c List.mem_cons_self
      rw [List.foldl_cons, ih (fun d hd => htext d (List.mem_cons_of_mem _ hd)) (h.step hc),
        Lexer.step_unquoted h hc, List.splitOnP_cons_eq_if_modifyHead]
      by_cases hspace : IsSpace c
      · have hid : (([] : List Char) ++ ·) = id := rfl
        have hemit : s.emit.token = [] := rfl
        rw [if_pos hspace, if_pos (decide_eq_true hspace), emit_tokens h.2, hemit, hid,
          List.modifyHead_id, List.modifyHead_cons, List.append_nil, List.append_assoc,
          ← List.filter_append, List.singleton_append]
        rfl
      · have hpush : (s.push .word [c]).token = s.token ++ [c] := rfl
        have hcomp : (fun w : List Char => s.token ++ [c] ++ w) = (s.token ++ ·) ∘ (c :: ·) := by
          funext w
          simp
        have hword : ¬ decide (IsSpace c) = true := by simpa using hspace
        rw [if_neg hspace, if_neg hword, hpush, List.modifyHead_modifyHead, hcomp]
        rfl

/-- **A plain text splits into its words.** -/
theorem split_eq_words {text : List Char} (htext : Plain text) : split text = .ok (words text) := by
  have hstart : start.Unquoted := ⟨Or.inl rfl, rfl⟩
  obtain ⟨⟨hmode, -⟩, -⟩ := foldl_plain htext hstart
  have hid : (([] : List Char) ++ ·) = id := rfl
  have htokens : (text.foldl Lexer.step start).emit.tokens = _ := foldl_tokens htext hstart
  have htoken : start.token = [] := rfl
  rw [htoken, hid, List.modifyHead_id] at htokens
  unfold split finish
  rcases hmode with hmode | hmode
  · rw [hmode]
    exact congrArg _ htokens
  · rw [hmode]
    exact congrArg _ htokens

/-- The words, one after the other, are the text without its whitespace. -/
theorem words_flatten (text : List Char) :
    (words text).flatten = text.filter fun c => ¬ IsSpace c := by
  have hnil : ∀ l : List (List Char), (l.filter (· ≠ [])).flatten = l.flatten := by
    intro l
    induction l with
    | nil => rfl
    | cons w l ih => by_cases hw : w = [] <;> simp_all
  have hhead : ∀ (c : Char) (l : List (List Char)), l ≠ [] →
      (l.modifyHead (c :: ·)).flatten = c :: l.flatten := by
    intro c l hl
    cases l with
    | nil => exact absurd rfl hl
    | cons w l => rfl
  rw [words, hnil]
  induction text with
  | nil => rfl
  | cons c text ih =>
      rw [List.splitOnP_cons_eq_if_modifyHead]
      by_cases hspace : IsSpace c
      · simpa [hspace] using ih
      · rw [if_neg (by simpa using hspace), hhead c _ (List.splitOnP_ne_nil _ _), ih]
        simp [hspace]

/-- A word is not empty, and its characters are characters of the text that are not
whitespace. -/
theorem of_mem_words {text w : List Char} (h : w ∈ words text) :
    w ≠ [] ∧ ∀ c ∈ w, c ∈ text ∧ ¬ IsSpace c := by
  refine ⟨by simpa using (List.mem_filter.mp h).2, fun c hc => ?_⟩
  have hflatten : c ∈ (words text).flatten := List.mem_flatten.mpr ⟨w, h, hc⟩
  rw [words_flatten] at hflatten
  simpa using hflatten

example : split "run 'a b'c \"\" ".toList = .ok ["run".toList, "a bc".toList, []] := by decide

end Shlex
