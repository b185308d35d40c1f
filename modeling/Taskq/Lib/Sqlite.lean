import Mathlib.Data.List.TakeWhile

/-!
# Taskq.Lib.Sqlite

SQLite's values and the affinities of its columns.

A column declared `VARCHAR` or `TEXT` stores numbers as texts. One declared `INTEGER`
or `DATETIME` has numeric affinity: what is stored in it, and what it is compared with,
is turned into a number when the whole text reads as one (`looksNumeric`). Every number
sorts before every text. Blobs are left out.

How a number is written as a text and read from one is a parameter (`Conversions`), and
so are the numbers themselves: 64-bit integers and doubles, compared by value.
-/

namespace Sqlite

/-- The whitespace around a number. -/
def isSpace (c : Char) : Bool := c = ' ' ∨ ('\t' ≤ c ∧ c ≤ '\r')

def dropSign : List Char → List Char
  | [] => []
  | c :: cs => if c = '-' ∨ c = '+' then cs else c :: cs

/-- What follows an exponent; `none` for an `e` without digits. -/
def dropExponent : List Char → Option (List Char)
  | [] => some []
  | c :: cs =>
      if c = 'e' ∨ c = 'E' then
        let digits := dropSign cs
        if digits.head?.any Char.isDigit then some (digits.dropWhile Char.isDigit) else none
      else some (c :: cs)

/-- Does an unsigned text read as a number, whitespace behind it? -/
def isNumeral (cs : List Char) : Bool :=
  let whole := cs.takeWhile Char.isDigit
  let cs := cs.dropWhile Char.isDigit
  let point := cs.head? = some '.'
  let fraction := if point then cs.tail.takeWhile Char.isDigit else []
  let cs := if point then cs.tail.dropWhile Char.isDigit else cs
  !(whole ++ fraction).isEmpty && (dropExponent cs).any fun rest => rest.all isSpace

/-- Does the whole text read as a number? -/
def looksNumeric (cs : List Char) : Bool := isNumeral (dropSign (cs.dropWhile isSpace))

theorem isSpace_digit {c : Char} (h : c.isDigit) : isSpace c = false := by
  simp only [Char.isDigit, Bool.and_eq_true, decide_eq_true_eq] at h
  simp only [isSpace, decide_eq_false_iff_not, not_or, not_and, Char.le_def]
  refine ⟨?_, ?_⟩
  · rintro rfl
    exact absurd h.1 (by decide)
  · intro _ hle
    exact absurd (UInt32.le_trans h.1 hle) (by decide)

theorem dropSign_digit {c : Char} (h : c.isDigit) (cs : List Char) :
    dropSign (c :: cs) = c :: cs := by
  refine if_neg ?_
  intro hsign
  rcases hsign with rfl | rfl
  · exact absurd h (by decide)
  · exact absurd h (by decide)

theorem isNumeral_hyphen {digits : List Char} (hdigits : ∀ c ∈ digits, c.isDigit)
    (rest : List Char) : isNumeral (digits ++ '-' :: rest) = false := by
  have hafter : (digits ++ '-' :: rest).dropWhile Char.isDigit = '-' :: rest := by
    rw [List.dropWhile_append_of_pos hdigits, List.dropWhile_cons_of_neg (by decide)]
  have hhyphen : isSpace '-' = false := by decide
  simp only [isNumeral, hafter]
  simp [dropExponent, hhyphen]

/-- Digits with a hyphen behind them are not a number. -/
theorem looksNumeric_hyphen {c : Char} {digits : List Char} (hc : c.isDigit)
    (hdigits : ∀ c ∈ digits, c.isDigit) (rest : List Char) :
    looksNumeric (c :: digits ++ '-' :: rest) = false := by
  rw [looksNumeric, List.cons_append, List.dropWhile_cons_of_neg (by simp [isSpace_digit hc]),
    dropSign_digit hc]
  exact isNumeral_hyphen (List.forall_mem_cons.mpr ⟨hc, hdigits⟩) rest

/-! ### Values and affinities -/

/-- A value; `ν` are the numbers. -/
inductive Value (ν : Type)
  | null
  | number (v : ν)
  | text (s : String)

/-- How numbers and texts are turned into each other. -/
structure Conversions (ν : Type) where
  numberText : ν → String
  textNumber : String → ν

namespace Value

variable {ν : Type}

/-- What a column of text affinity stores; `none` is `NULL`. -/
def asText (conv : Conversions ν) : Value ν → Option String
  | .null => none
  | .number v => some (conv.numberText v)
  | .text s => some s

/-- A value that an `INTEGER` column can hold: no text in it reads as a number. -/
def IsInteger : Value ν → Prop
  | .text s => looksNumeric s.toList = false
  | _ => True

/-- What an `INTEGER` column stores. -/
def asInteger (conv : Conversions ν) : Value ν → {v : Value ν // v.IsInteger}
  | .null => ⟨.null, trivial⟩
  | .number v => ⟨.number v, trivial⟩
  | .text s =>
      if h : looksNumeric s.toList then ⟨.number (conv.textNumber s), trivial⟩
      else ⟨.text s, by simpa [IsInteger] using h⟩

/-- What such a column holds is stored as it is. -/
theorem asInteger_self (conv : Conversions ν) (v : {v : Value ν // v.IsInteger}) :
    asInteger conv v.1 = v := by
  obtain ⟨v, h⟩ := v
  cases v with
  | text s =>
      rw [IsInteger] at h
      simp [asInteger, h]
  | _ => rfl

end Value

end Sqlite
