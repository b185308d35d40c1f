import Mathlib.Algebra.Group.Nat.Defs
import Mathlib.Data.Rat.Defs
import Taskq.Lib.Unicode

/-!
# Taskq.Lib.Json

Python's `json`: the values, `json.loads`, and `json.dumps` of an object of strings.

A Python string holds any code points, surrogates included, so strings are `PyStr`.
The encoder writes ASCII only: a code point above `U+FFFF` becomes two escapes
(`units`), and the decoder joins such a pair again (`joinSurrogates`). A string
that holds the two halves of a pair as code points of its own is therefore not read
back as it was; one without surrogates is (`joinSurrogates_units`).

The decoder is the recursive descent of CPython's scanner, by fuel: a text of `n`
characters nests less than `n + 1` deep. Beyond the standard it reads `NaN` and the
infinities, lets the last of several equal keys win, and rejects control characters
inside strings.
-/

namespace Json

open Unicode

/-! ### Values -/

/-- What a number with a fraction or an exponent says, and the three special ones. -/
inductive Float
  | nan
  | infinity (negative : Bool)
  /-- `digits * 10 ^ exponent`, with a sign. -/
  | decimal (negative : Bool) (digits : ℕ) (exponent : ℤ)
  deriving DecidableEq

/-- A decoded value; an object keeps its members in the order of the text. -/
inductive Value
  | null
  | bool (b : Bool)
  | int (n : ℤ)
  | float (x : Float)
  | str (s : PyStr)
  | arr (vs : List Value)
  | obj (members : List (PyStr × Value))

/-- Is a decimal rounded to a double that is not zero? It is not zero from half the
smallest subnormal on, that half excluded: a tie goes to the even neighbour. -/
def Float.truthy : Float → Bool
  | .nan => true
  | .infinity _ => true
  | .decimal _ digits exponent => (1 : ℚ) < 2 ^ 1075 * digits * (10 : ℚ) ^ exponent

/-- Python's truth value of a decoded value. -/
def Value.truthy : Value → Bool
  | .null => false
  | .bool b => b
  | .int n => n ≠ 0
  | .float x => x.truthy
  | .str s => s ≠ []
  | .arr vs => !vs.isEmpty
  | .obj members => !members.isEmpty

/-- `dict.get`: of several equal keys the last one counts. -/
def get (members : List (PyStr × Value)) (key : PyStr) : Value :=
  (members.reverse.lookup key).getD .null

/-! ### Strings -/

/-- The hexadecimal digit of `n % 16`. -/
def hexDigit (n : ℕ) : Char := Nat.digitChar (n % 16)

/-- The value of a hexadecimal digit, of either case. -/
def hexValue? (c : Char) : Option ℕ :=
  if '0' ≤ c ∧ c ≤ '9' then some (c.toNat - 48)
  else if 'a' ≤ c ∧ c ≤ 'f' then some (c.toNat - 87)
  else if 'A' ≤ c ∧ c ≤ 'F' then some (c.toNat - 55)
  else none

/-- `\uXXXX`. -/
def unicodeEscape (n : ℕ) : List Char :=
  ['\\', 'u', hexDigit (n / 4096), hexDigit (n / 256), hexDigit (n / 16), hexDigit n]

/-- The first half of the pair for a code point above `U+FFFF`. -/
def highSurrogate (n : ℕ) : ℕ := 0xD800 + (n - 0x10000) / 1024

/-- The second half. -/
def lowSurrogate (n : ℕ) : ℕ := 0xDC00 + (n - 0x10000) % 1024

/-- The letter of the short escape of a code point, for those that have one. -/
def shortEscape? (n : ℕ) : Option Char :=
  if n = 34 then some '"'
  else if n = 92 then some '\\'
  else if n = 10 then some 'n'
  else if n = 13 then some 'r'
  else if n = 9 then some 't'
  else if n = 8 then some 'b'
  else if n = 12 then some 'f'
  else none

/-- One code point as `json.dumps` writes it inside quotes. -/
def encodePoint (c : CodePoint) : List Char :=
  match shortEscape? c.val with
  | some e => ['\\', e]
  | none =>
      if 32 ≤ c.val ∧ c.val ≤ 126 then [Char.ofNat c.val]
      else if c.val < 0x10000 then unicodeEscape c.val
      else unicodeEscape (highSurrogate c.val) ++ unicodeEscape (lowSurrogate c.val)

/-- A string in quotes. -/
def encodeStr (s : PyStr) : List Char := '"' :: (s.flatMap encodePoint ++ ['"'])

/-- The code point of a small number. -/
def point (n : ℕ) : CodePoint := Fin.ofNat 0x110000 n

/-- The character a one-letter escape stands for. -/
def escape? (c : Char) : Option ℕ :=
  if c = '"' then some 34
  else if c = '\\' then some 92
  else if c = '/' then some 47
  else if c = 'b' then some 8
  else if c = 'f' then some 12
  else if c = 'n' then some 10
  else if c = 'r' then some 13
  else if c = 't' then some 9
  else none

/-- The value of four hexadecimal digits. -/
def hex4? (a b c d : Char) : Option ℕ := do
  let a ← hexValue? a
  let b ← hexValue? b
  let c ← hexValue? c
  let d ← hexValue? d
  return ((a * 16 + b) * 16 + c) * 16 + d

/-- `scanstring`, after the opening quote: the code points up to the closing one, one
for each escape, and the rest of the text. -/
def scanString : List Char → Option (PyStr × List Char)
  | [] => none
  | c :: rest =>
      if c = '"' then some ([], rest)
      else if c = '\\' then
        match rest with
        | [] => none
        | e :: rest =>
            if e = 'u' then
              match rest with
              | w :: x :: y :: z :: rest => do
                  let n ← hex4? w x y z
                  let (s, rest) ← scanString rest
                  return (point n :: s, rest)
              | _ => none
            else do
              let n ← escape? e
              let (s, rest) ← scanString rest
              return (point n :: s, rest)
      else if c.toNat < 0x20 then none
      else do
        let (s, rest) ← scanString rest
        return (CodePoint.ofChar c :: s, rest)

/-- Join each first half of a pair with the second half after it. -/
def joinSurrogates : PyStr → PyStr
  | [] => []
  | [a] => [a]
  | a :: b :: rest =>
      if (0xD800 ≤ a.val ∧ a.val < 0xDC00) ∧ (0xDC00 ≤ b.val ∧ b.val < 0xE000) then
        point (0x10000 + (a.val - 0xD800) * 1024 + (b.val - 0xDC00)) :: joinSurrogates rest
      else a :: joinSurrogates (b :: rest)

/-! ### The decoder -/

/-- The whitespace between tokens. -/
def isSpace (c : Char) : Bool := c = ' ' ∨ c = '\t' ∨ c = '\n' ∨ c = '\r'

def skipSpace (cs : List Char) : List Char := cs.dropWhile isSpace

/-- The value of a text of decimal digits. -/
def digitsValue (cs : List Char) : ℕ := cs.foldl (fun acc c => acc * 10 + (c.toNat - 48)) 0

/-- `match` a fixed word. -/
def word? (w : List Char) (v : Value) (cs : List Char) : Option (Value × List Char) :=
  if w <+: cs then some (v, cs.drop w.length) else none

/-- `int()` refuses texts of more digits. -/
def maxIntDigits : ℕ := 4300

/-- `_match_number`: an integer, or a decimal when a fraction or an exponent follows. -/
def parseNumber (cs : List Char) : Option (Value × List Char) :=
  let (negative, cs) := match cs with
    | '-' :: rest => (true, rest)
    | _ => (false, cs)
  let run := match cs with
    | '0' :: _ => ['0']
    | _ => cs.takeWhile Char.isDigit
  let cs := cs.drop run.length
  let fraction := match cs with
    | '.' :: rest => rest.takeWhile Char.isDigit
    | _ => []
  let cs := if fraction = [] then cs else cs.drop (fraction.length + 1)
  let (sign, marks, expDigits) := match cs with
    | e :: rest =>
        if e = 'e' ∨ e = 'E' then
          match rest with
          | '-' :: rest => (true, 2, rest.takeWhile Char.isDigit)
          | '+' :: rest => (false, 2, rest.takeWhile Char.isDigit)
          | rest => (false, 1, rest.takeWhile Char.isDigit)
        else (false, 0, [])
    | [] => (false, 0, [])
  let cs := if expDigits = [] then cs else cs.drop (marks + expDigits.length)
  if run = [] then none
  else if fraction = [] ∧ expDigits = [] then
    if maxIntDigits < run.length then none
    else
      let n : ℤ := digitsValue run
      some (.int (if negative then -n else n), cs)
  else
    let e : ℤ := digitsValue expDigits
    some (.float (.decimal negative (digitsValue (run ++ fraction))
      ((if sign then -e else e) - fraction.length)), cs)

/-- A value that starts with a letter, a digit or a sign. -/
def parseScalar (cs : List Char) : Option (Value × List Char) :=
  (word? "null".toList .null cs).or <|
  (word? "true".toList (.bool true) cs).or <|
  (word? "false".toList (.bool false) cs).or <|
  (word? "NaN".toList (.float .nan) cs).or <|
  (word? "Infinity".toList (.float (.infinity false)) cs).or <|
  (word? "-Infinity".toList (.float (.infinity true)) cs).or <|
  parseNumber cs

mutual

/-- `scan_once`. -/
def parseValue : ℕ → List Char → Option (Value × List Char)
  | 0, _ => none
  | fuel + 1, cs =>
      match cs with
      | '"' :: rest => do
          let (s, rest) ← scanString rest
          return (.str (joinSurrogates s), rest)
      | '\x7b' :: rest =>
          match skipSpace rest with
          | '\x7d' :: rest => some (.obj [], rest)
          | rest => do
              let (members, rest) ← parseMembers fuel rest
              return (.obj members, rest)
      | '[' :: rest =>
          match skipSpace rest with
          | ']' :: rest => some (.arr [], rest)
          | rest => do
              let (vs, rest) ← parseElements fuel rest
              return (.arr vs, rest)
      | cs => parseScalar cs

/-- The members of an object, from the first key to the closing brace. -/
def parseMembers : ℕ → List Char → Option (List (PyStr × Value) × List Char)
  | 0, _ => none
  | fuel + 1, cs =>
      match cs with
      | '"' :: rest => do
          let (key, rest) ← scanString rest
          match skipSpace rest with
          | ':' :: rest => do
              let (v, rest) ← parseValue fuel (skipSpace rest)
              match skipSpace rest with
              | ',' :: rest => do
                  let (members, rest) ← parseMembers fuel (skipSpace rest)
                  return ((joinSurrogates key, v) :: members, rest)
              | '\x7d' :: rest => some ([(joinSurrogates key, v)], rest)
              | _ => none
          | _ => none
      | _ => none

/-- The elements of an array, from the first one to the closing bracket. -/
def parseElements : ℕ → List Char → Option (List Value × List Char)
  | 0, _ => none
  | fuel + 1, cs => do
      let (v, rest) ← parseValue fuel cs
      match skipSpace rest with
      | ',' :: rest => do
          let (vs, rest) ← parseElements fuel (skipSpace rest)
          return (v :: vs, rest)
      | ']' :: rest => some ([v], rest)
      | _ => none

end

/-- `json.loads` of a text; `none` stands for `ValueError`. -/
def loads? (text : List Char) : Option Value :=
  if text.head? = some '\ufeff' then none
  else do
    let (v, rest) ← parseValue (text.length + 1) (skipSpace text)
    if skipSpace rest = [] then some v else none

/-! ### The encoder -/

/-- The members of an object of strings, each after the first behind a comma. -/
def encodeMembers : List (PyStr × PyStr) → List Char
  | [] => []
  | [(k, v)] => encodeStr k ++ ':' :: encodeStr v
  | (k, v) :: m :: members =>
      encodeStr k ++ ':' :: (encodeStr v ++ ',' :: encodeMembers (m :: members))

/-- `json.dumps` of an object of strings with `separators=(",", ":")`, its members in
the order they are written. -/
def dumps (members : List (PyStr × PyStr)) : List Char :=
  '\x7b' :: (encodeMembers members ++ ['\x7d'])

/-! ### The output is ASCII -/

theorem hexDigit_ascii (n : ℕ) : (hexDigit n).toNat < 0x80 := by
  have hall : ∀ m < 16, (Nat.digitChar m).toNat < 0x80 := by decide
  exact hall (n % 16) (Nat.mod_lt _ (by decide))

theorem unicodeEscape_ascii (n : ℕ) : Ascii (unicodeEscape n) := by
  intro c hc
  simp only [unicodeEscape, List.mem_cons, List.not_mem_nil, or_false] at hc
  rcases hc with rfl | rfl | rfl | rfl | rfl | rfl
  · decide
  · decide
  all_goals exact hexDigit_ascii _

/-- A short escape is read back as the code point it stands for. -/
theorem shortEscape?_some {n : ℕ} {e : Char} (h : shortEscape? n = some e) :
    escape? e = some n ∧ e ≠ 'u' ∧ e.toNat < 0x80 ∧ n < 0x80 := by
  unfold shortEscape? at h
  split_ifs at h with h1 h2 h3 h4 h5 h6 h7
  all_goals
    subst n
    cases h
    decide

/-- The code points without a short escape are neither quotes nor backslashes. -/
theorem shortEscape?_none {n : ℕ} (h : shortEscape? n = none) : n ≠ 34 ∧ n ≠ 92 := by
  refine ⟨?_, ?_⟩
  · rintro rfl
    cases h
  · rintro rfl
    cases h

theorem encodePoint_ascii (c : CodePoint) : Ascii (encodePoint c) := by
  unfold encodePoint
  split
  next e he =>
      intro d hd
      simp only [List.mem_cons, List.not_mem_nil, or_false] at hd
      rcases hd with rfl | rfl
      · decide
      · exact (shortEscape?_some he).2.2.1
  next =>
      split_ifs with hprint hbmp
      · intro d hd
        rw [List.mem_singleton.mp hd, toNat_ofNat (by omega)]
        omega
      · exact unicodeEscape_ascii _
      · exact (unicodeEscape_ascii _).append (unicodeEscape_ascii _)

theorem encodeStr_ascii (s : PyStr) : Ascii (encodeStr s) := by
  intro c hc
  rw [encodeStr, List.mem_cons, List.mem_append, List.mem_flatMap, List.mem_singleton] at hc
  rcases hc with rfl | ⟨d, -, hd⟩ | rfl
  · decide
  · exact encodePoint_ascii d c hd
  · decide

theorem encodeMembers_ascii : ∀ members, Ascii (encodeMembers members)
  | [] => fun c hc => by cases hc
  | [(k, v)] => by
      intro c hc
      rw [encodeMembers, List.mem_append, List.mem_cons] at hc
      rcases hc with hc | rfl | hc
      · exact encodeStr_ascii k c hc
      · decide
      · exact encodeStr_ascii v c hc
  | (k, v) :: m :: members => by
      intro c hc
      rw [encodeMembers, List.mem_append, List.mem_cons, List.mem_append, List.mem_cons] at hc
      rcases hc with hc | rfl | hc | rfl | hc
      · exact encodeStr_ascii k c hc
      · decide
      · exact encodeStr_ascii v c hc
      · decide
      · exact encodeMembers_ascii (m :: members) c hc

theorem dumps_ascii (members : List (PyStr × PyStr)) : Ascii (dumps members) := by
  intro c hc
  rw [dumps, List.mem_cons, List.mem_append, List.mem_singleton] at hc
  rcases hc with rfl | hc | rfl
  · decide
  · exact encodeMembers_ascii members c hc
  · decide

/-! ### The round trip -/

/-- The code points the escapes of one code point stand for. -/
def units (c : CodePoint) : PyStr :=
  if c.val < 0x10000 then [c] else [point (highSurrogate c.val), point (lowSurrogate c.val)]

theorem hexValue?_hexDigit (n : ℕ) : hexValue? (hexDigit n) = some (n % 16) := by
  have hall : ∀ m < 16, hexValue? (Nat.digitChar m) = some m := by decide
  exact hall (n % 16) (Nat.mod_lt _ (by decide))

theorem hex4?_hexDigit {n : ℕ} (h : n < 0x10000) :
    hex4? (hexDigit (n / 4096)) (hexDigit (n / 256)) (hexDigit (n / 16)) (hexDigit n) = some n := by
  simp only [hex4?, hexValue?_hexDigit, Option.bind_eq_bind, Option.bind_some, Option.pure_def,
    Option.some.injEq]
  omega

/-- Put a code point in front of a scanned string. -/
def consUnits (us : PyStr) (r : PyStr × List Char) : PyStr × List Char := (us ++ r.1, r.2)

theorem scanString_unicodeEscape {n : ℕ} (h : n < 0x10000) (rest : List Char) :
    scanString (unicodeEscape n ++ rest) = (scanString rest).map (consUnits [point n]) := by
  simp only [unicodeEscape, List.cons_append, List.nil_append]
  rw [scanString]
  simp only [Char.reduceEq, if_false, if_true, hex4?_hexDigit h, Option.bind_eq_bind,
    Option.bind_some]
  cases scanString rest <;> rfl

theorem scanString_shortEscape {n : ℕ} {e : Char} (h : shortEscape? n = some e)
    (rest : List Char) :
    scanString ('\\' :: e :: rest) = (scanString rest).map (consUnits [point n]) := by
  obtain ⟨hescape, hu, -, -⟩ := shortEscape?_some h
  rw [scanString.eq_def]
  simp only [Char.reduceEq, if_false, if_true, hu, hescape, Option.bind_eq_bind, Option.bind_some]
  cases scanString rest <;> rfl

theorem scanString_printable {c : Char} (hquote : c ≠ '"') (hslash : c ≠ '\\')
    (h : 32 ≤ c.toNat) (rest : List Char) :
    scanString (c :: rest) = (scanString rest).map (consUnits [CodePoint.ofChar c]) := by
  rw [scanString.eq_def]
  simp only
  rw [if_neg hquote, if_neg hslash, if_neg (by omega)]
  cases scanString rest <;> rfl

theorem point_val (c : CodePoint) : point c.val = c := Fin.ofNat_val_eq_self c

/-- What is written for a code point is read as its units. -/
theorem scanString_encodePoint (c : CodePoint) (rest : List Char) :
    scanString (encodePoint c ++ rest) = (scanString rest).map (consUnits (units c)) := by
  have hc := c.isLt
  unfold encodePoint
  split
  next e he =>
      have hsmall := (shortEscape?_some he).2.2.2
      rw [units, if_pos (by omega)]
      show scanString ('\\' :: e :: rest) = _
      rw [scanString_shortEscape he, point_val]
  next hnone =>
      obtain ⟨hquote, hslash⟩ := shortEscape?_none hnone
      split_ifs with hprint hbmp
      · have hval : (Char.ofNat c.val).toNat = c.val := toNat_ofNat (by omega)
        have hpoint : CodePoint.ofChar (Char.ofNat c.val) = c := Fin.ext hval
        rw [units, if_pos (by omega)]
        show scanString (Char.ofNat c.val :: rest) = _
        rw [scanString_printable _ _ (by omega), hpoint]
        · intro h
          rw [h] at hval
          exact hquote hval.symm
        · intro h
          rw [h] at hval
          exact hslash hval.symm
      · rw [units, if_pos hbmp, scanString_unicodeEscape hbmp, point_val]
      · rw [units, if_neg hbmp, List.append_assoc, scanString_unicodeEscape
          (by unfold highSurrogate; omega), scanString_unicodeEscape
          (by unfold lowSurrogate; omega), Option.map_map]
        rfl

/-- A string in quotes is read as the units of its code points. -/
theorem scanString_flatMap (s : PyStr) (rest : List Char) :
    scanString (s.flatMap encodePoint ++ '"' :: rest) = some (s.flatMap units, rest) := by
  induction s with
  | nil =>
      unfold scanString
      rfl
  | cons c s ih =>
      rw [List.flatMap_cons, List.append_assoc, scanString_encodePoint, ih]
      rfl

/-- What the decoder makes of what the encoder writes for a string. -/
def reread (s : PyStr) : PyStr := joinSurrogates (s.flatMap units)

/-- A string that the decoder gives back as it was. -/
def Stable (s : PyStr) : Prop := joinSurrogates (s.flatMap units) = s

/-- Joining leaves alone what is not the first half of a pair. -/
theorem joinSurrogates_cons {c : CodePoint} (h : ¬ IsSurrogate c.val) (s : PyStr) :
    joinSurrogates (c :: s) = c :: joinSurrogates s := by
  unfold IsSurrogate at h
  cases s with
  | nil => rfl
  | cons d s => rw [joinSurrogates, if_neg (by omega)]

/-- The units of one code point are joined to it. -/
theorem joinSurrogates_units {c : CodePoint} (h : ¬ IsSurrogate c.val) (s : PyStr) :
    joinSurrogates (units c ++ s) = c :: joinSurrogates s := by
  have hc := c.isLt
  unfold units
  split_ifs with hbmp
  · exact joinSurrogates_cons h s
  · have hhigh : (point (highSurrogate c.val)).val = highSurrogate c.val :=
      Nat.mod_eq_of_lt (by unfold highSurrogate; omega)
    have hlow : (point (lowSurrogate c.val)).val = lowSurrogate c.val :=
      Nat.mod_eq_of_lt (by unfold lowSurrogate; omega)
    have hjoin : 0x10000 + (highSurrogate c.val - 0xD800) * 1024 + (lowSurrogate c.val - 0xDC00)
        = c.val := by
      unfold highSurrogate lowSurrogate
      omega
    rw [List.cons_append, List.cons_append, List.nil_append, joinSurrogates, if_pos, hhigh, hlow,
      hjoin, point_val]
    rw [hhigh, hlow]
    unfold highSurrogate lowSurrogate
    omega

/-- Every string without surrogates is given back as it was. -/
theorem stable_ofChars (cs : List Char) : Stable (PyStr.ofChars cs) := by
  induction cs with
  | nil => rfl
  | cons c cs ih =>
      have hc : ¬ IsSurrogate (CodePoint.ofChar c).val := not_isSurrogate_char c
      have ih' : joinSurrogates ((PyStr.ofChars cs).flatMap units) = PyStr.ofChars cs := ih
      rw [Stable, PyStr.ofChars, List.map_cons, List.flatMap_cons, joinSurrogates_units hc]
      rw [PyStr.ofChars] at ih'
      rw [ih']

@[simp] theorem skipSpace_cons {c : Char} (h : isSpace c = false) (rest : List Char) :
    skipSpace (c :: rest) = c :: rest := by
  rw [skipSpace, List.dropWhile_cons, h]
  rfl

theorem parseValue_encodeStr (fuel : ℕ) (s : PyStr) (rest : List Char) :
    parseValue (fuel + 1) (encodeStr s ++ rest) = some (.str (reread s), rest) := by
  have htext : encodeStr s ++ rest = '"' :: (s.flatMap encodePoint ++ '"' :: rest) := by
    simp [encodeStr]
  rw [htext, parseValue, scanString_flatMap]
  rfl

/-- The members an object of strings is read as. -/
def strMembers (members : List (PyStr × PyStr)) : List (PyStr × Value) :=
  members.map fun m => (m.1, .str m.2)

/-- The members as they are read back. -/
def rereadMembers (members : List (PyStr × PyStr)) : List (PyStr × PyStr) :=
  members.map fun m => (reread m.1, reread m.2)

/-- Between tokens of a dump there is no whitespace to skip. -/
theorem skipSpace_encodeStr (s : PyStr) (rest : List Char) :
    skipSpace (encodeStr s ++ rest) = encodeStr s ++ rest :=
  skipSpace_cons (by decide) _

/-- The members of a dump start with the quote of the first key. -/
theorem encodeMembers_cons (m : PyStr × PyStr) (members : List (PyStr × PyStr)) :
    ∃ text, encodeMembers (m :: members) = '"' :: text := by
  cases members with
  | nil => exact ⟨_, rfl⟩
  | cons n members => exact ⟨_, rfl⟩

theorem skipSpace_encodeMembers (m : PyStr × PyStr) (members : List (PyStr × PyStr))
    (rest : List Char) :
    skipSpace (encodeMembers (m :: members) ++ rest) = encodeMembers (m :: members) ++ rest := by
  obtain ⟨text, htext⟩ := encodeMembers_cons m members
  rw [htext]
  exact skipSpace_cons (by decide) _

theorem scanString_encodeStr (s : PyStr) (rest : List Char) :
    ∃ text, encodeStr s ++ rest = '"' :: text ∧
      scanString text = some (s.flatMap units, rest) :=
  ⟨s.flatMap encodePoint ++ '"' :: rest, by simp [encodeStr], scanString_flatMap s rest⟩

/-- The members of a dump are read back. -/
theorem parseMembers_encodeMembers : ∀ (members : List (PyStr × PyStr)) (fuel : ℕ),
    members ≠ [] → members.length < fuel →
    ∀ rest, parseMembers fuel (encodeMembers members ++ '\x7d' :: rest)
      = some (strMembers (rereadMembers members), rest)
  | [], _, hne, _, _ => absurd rfl hne
  | [(k, v)], fuel + 2, _, _, rest => by
      have hassoc : encodeMembers [(k, v)] ++ '\x7d' :: rest
          = encodeStr k ++ (':' :: (encodeStr v ++ '\x7d' :: rest)) := by
        simp [encodeMembers]
      obtain ⟨text, htext, hscan⟩ := scanString_encodeStr k (':' :: (encodeStr v ++ '\x7d' :: rest))
      rw [hassoc, htext, parseMembers, hscan]
      simp only [Option.bind_eq_bind, Option.bind_some]
      rw [skipSpace_cons (by decide)]
      simp only [skipSpace_encodeStr, parseValue_encodeStr fuel v, Option.bind_some]
      rw [skipSpace_cons (by decide)]
      rfl
  | (k, v) :: m :: members, fuel + 2, _, hfuel, rest => by
      have hassoc : encodeMembers ((k, v) :: m :: members) ++ '\x7d' :: rest
          = encodeStr k ++ (':' :: (encodeStr v ++
              (',' :: (encodeMembers (m :: members) ++ '\x7d' :: rest)))) := by
        simp [encodeMembers]
      obtain ⟨text, htext, hscan⟩ := scanString_encodeStr k
        (':' :: (encodeStr v ++ (',' :: (encodeMembers (m :: members) ++ '\x7d' :: rest))))
      have hmembers := parseMembers_encodeMembers (m :: members) (fuel + 1) (List.cons_ne_nil _ _)
        (by simp only [List.length_cons] at hfuel ⊢; omega) rest
      rw [hassoc, htext, parseMembers, hscan]
      simp only [Option.bind_eq_bind, Option.bind_some]
      rw [skipSpace_cons (by decide)]
      simp only [skipSpace_encodeStr, parseValue_encodeStr fuel v, Option.bind_some]
      rw [skipSpace_cons (by decide)]
      simp only [skipSpace_encodeMembers, hmembers, Option.bind_some]
      rfl
  | [(k, v)], 0, _, hfuel, _ => by simp at hfuel
  | [(k, v)], 1, _, hfuel, _ => by simp at hfuel
  | (k, v) :: m :: members, 0, _, hfuel, _ => by simp at hfuel
  | (k, v) :: m :: members, 1, _, hfuel, _ => by simp at hfuel

/-- An object whose first key is there is its members. -/
theorem parseValue_object {fuel : ℕ} {body text rest : List Char} {members}
    (hskip : skipSpace body = '"' :: text)
    (hmembers : parseMembers fuel ('"' :: text) = some (members, rest)) :
    parseValue (fuel + 1) ('\x7b' :: body) = some (.obj members, rest) := by
  rw [parseValue, hskip]
  show (parseMembers fuel ('"' :: text) >>= fun r => pure (Value.obj r.1, r.2)) = _
  rw [hmembers]
  rfl

theorem length_le_encodeMembers : ∀ members, members.length ≤ (encodeMembers members).length
  | [] => le_rfl
  | [(k, v)] => by simp [encodeMembers, encodeStr]
  | (k, v) :: m :: members => by
      have ih := length_le_encodeMembers (m :: members)
      simp only [encodeMembers, List.length_append, List.length_cons] at ih ⊢
      omega

/-- **What loading a dump gives**: the members, each string as it is read back. -/
theorem loads?_dumps_eq {members : List (PyStr × PyStr)} (hne : members ≠ []) :
    loads? (dumps members) = some (.obj (strMembers (rereadMembers members))) := by
  have hlen := length_le_encodeMembers members
  have hfuel : members.length < (dumps members).length := by
    rw [dumps, List.length_cons, List.length_append]
    omega
  have hread := parseMembers_encodeMembers members (dumps members).length hne hfuel []
  obtain ⟨m, rest, rfl⟩ := List.exists_cons_of_ne_nil hne
  obtain ⟨text, htext⟩ := encodeMembers_cons m rest
  have hvalue : parseValue ((dumps (m :: rest)).length + 1) (dumps (m :: rest))
      = some (.obj (strMembers (rereadMembers (m :: rest))), []) := by
    have hbody := skipSpace_encodeMembers m rest ['\x7d']
    rw [htext] at hbody hread
    have hdumps : dumps (m :: rest) = '\x7b' :: ('"' :: text ++ ['\x7d']) := by
      rw [dumps, htext]
    rw [hdumps] at hread ⊢
    exact parseValue_object hbody hread
  have hskip : skipSpace (dumps (m :: rest)) = dumps (m :: rest) := skipSpace_cons (by decide) _
  rw [loads?, if_neg (by simp [dumps]), hskip, hvalue]
  rfl

/-! ### Which strings are stable -/

/-- Is it the first half of a pair, and the other one the second half? -/
def Pairs (c d : CodePoint) : Prop :=
  (0xD800 ≤ c.val ∧ c.val < 0xDC00) ∧ (0xDC00 ≤ d.val ∧ d.val < 0xE000)

instance (c d : CodePoint) : Decidable (Pairs c d) := inferInstanceAs (Decidable (_ ∧ _))

/-- No first half of a pair stands right before a second half. -/
def Unpaired (s : PyStr) : Prop := s.IsChain fun c d => ¬ Pairs c d

theorem units_surrogate {c : CodePoint} (h : IsSurrogate c.val) : units c = [c] := by
  unfold IsSurrogate at h
  rw [units, if_pos (by omega)]

theorem reread_cons_pair {c d : CodePoint} (h : Pairs c d) (s : PyStr) :
    ∃ e, reread (c :: d :: s) = e :: reread s := by
  unfold Pairs at h
  have hc : IsSurrogate c.val := ⟨by omega, by omega⟩
  have hd : IsSurrogate d.val := ⟨by omega, by omega⟩
  rw [reread, List.flatMap_cons, List.flatMap_cons, units_surrogate hc, units_surrogate hd]
  show ∃ e, joinSurrogates (c :: d :: s.flatMap units) = e :: reread s
  rw [joinSurrogates, if_pos h]
  exact ⟨_, rfl⟩

/-- The first unit of a code point is a second half only when it is one itself. -/
theorem not_pairs_units {c d : CodePoint} (h : ¬ Pairs c d) :
    ∃ u us, units d = u :: us ∧ ¬ Pairs c u := by
  unfold units
  split_ifs with hbmp
  · exact ⟨d, [], rfl, h⟩
  · refine ⟨_, _, rfl, ?_⟩
    have hd := d.isLt
    have hhigh : (point (highSurrogate d.val)).val = highSurrogate d.val :=
      Nat.mod_eq_of_lt (by unfold highSurrogate; omega)
    rw [Pairs, hhigh]
    unfold highSurrogate
    omega

theorem reread_cons {c : CodePoint} {s : PyStr} (h : ∀ d ∈ s.head?, ¬ Pairs c d) :
    reread (c :: s) = c :: reread s := by
  by_cases hc : IsSurrogate c.val
  · rw [reread, List.flatMap_cons, units_surrogate hc]
    show joinSurrogates (c :: s.flatMap units) = c :: reread s
    cases s with
    | nil => rfl
    | cons d s =>
        obtain ⟨u, us, hunits, hpair⟩ := not_pairs_units (h d rfl)
        rw [reread, List.flatMap_cons, hunits, List.cons_append, joinSurrogates]
        exact if_neg hpair
  · rw [reread, List.flatMap_cons, joinSurrogates_units hc, reread]

theorem length_reread_le (s : PyStr) : (reread s).length ≤ s.length := by
  induction hn : s.length using Nat.strong_induction_on generalizing s with
  | _ n ih =>
      subst hn
      match s with
      | [] => exact le_rfl
      | [c] =>
          rw [reread_cons (by simp)]
          exact le_rfl
      | c :: d :: s =>
          by_cases hpair : Pairs c d
          · obtain ⟨e, he⟩ := reread_cons_pair hpair s
            have hle := ih s.length (by rw [List.length_cons, List.length_cons]; omega) s rfl
            rw [he, List.length_cons, List.length_cons, List.length_cons]
            omega
          · have hle := ih (d :: s).length (by simp) (d :: s) rfl
            rw [reread_cons (by simpa using hpair), List.length_cons, List.length_cons (a := c)]
            omega

/-- **The decoder gives back exactly the strings without a pair.** -/
theorem stable_iff {s : PyStr} : Stable s ↔ Unpaired s := by
  show reread s = s ↔ Unpaired s
  induction s with
  | nil => exact iff_of_true rfl .nil
  | cons c s ih =>
      cases s with
      | nil => exact iff_of_true (reread_cons (by simp)) (.singleton c)
      | cons d s =>
          rw [Unpaired, List.isChain_cons_cons]
          by_cases hpair : Pairs c d
          · refine iff_of_false ?_ fun h => h.1 hpair
            intro hsame
            -- the pair is one code point afterwards
            obtain ⟨e, he⟩ := reread_cons_pair hpair s
            have hlength := congrArg List.length (he.symm.trans hsame)
            have hle := length_reread_le s
            rw [List.length_cons, List.length_cons, List.length_cons] at hlength
            omega
          · rw [reread_cons (by simpa using hpair), List.cons_inj_right, ih]
            exact (and_iff_right hpair).symm

/-! ### What can be written back -/

/-- Is it a finite double? From halfway between the largest one and `2 ^ 1024` on, a decimal
is rounded to infinity. -/
def Float.finite : Float → Bool
  | .nan => false
  | .infinity _ => false
  | .decimal _ digits exponent => (digits : ℚ) * (10 : ℚ) ^ exponent < 2 ^ 1024 - 2 ^ 970

/-- Is there UTF-8 for the string? -/
def encodable (s : PyStr) : Bool := s.chars?.isSome

mutual

/-- Does `json.dumps(v, ensure_ascii=False, allow_nan=False).encode("utf-8")` go through? -/
def writable : Value → Bool
  | .null => true
  | .bool _ => true
  | .int n => n.natAbs < 10 ^ maxIntDigits
  | .float x => x.finite
  | .str s => encodable s
  | .arr vs => writableElements vs
  | .obj members => writableMembers members

def writableElements : List Value → Bool
  | [] => true
  | v :: vs => writable v && writableElements vs

/-- A member that a later one overwrites is not there to be written. -/
def writableMembers : List (PyStr × Value) → Bool
  | [] => true
  | (key, v) :: members =>
      (key ∈ members.map Prod.fst || (encodable key && writable v)) && writableMembers members

end

/-- No member has the key. -/
theorem lookup_reverse_eq_none {members : List (PyStr × Value)} {k : PyStr}
    (h : k ∉ members.map Prod.fst) : members.reverse.lookup k = none := by
  rw [List.lookup_eq_none_iff]
  intro m hm
  rw [bne_iff_ne]
  rintro rfl
  exact h (List.mem_map_of_mem (List.mem_reverse.mp hm))

/-- The first member counts where no later one has the key. -/
theorem get_cons (key : PyStr) (v : Value) (members : List (PyStr × Value)) (k : PyStr) :
    get ((key, v) :: members) k =
      if k ∈ members.map Prod.fst then get members k else if k = key then v else .null := by
  rw [get, get, List.reverse_cons, List.lookup_append]
  by_cases hlater : k ∈ members.map Prod.fst
  · obtain ⟨m, hm, rfl⟩ := List.mem_map.mp hlater
    have hsome : (members.reverse.lookup m.1).isSome :=
      List.lookup_isSome_iff.mpr ⟨m, List.mem_reverse.mpr hm, by simp⟩
    obtain ⟨w, hw⟩ := Option.isSome_iff_exists.mp hsome
    rw [if_pos hlater, hw, Option.some_or]
  · rw [if_neg hlater, lookup_reverse_eq_none hlater, Option.none_or]
    by_cases hkey : k = key
    · simp [hkey]
    · rw [if_neg hkey, List.lookup_cons, beq_eq_false_iff_ne.mpr hkey]
      rfl

/-- What is written of an object is what its keys give. -/
theorem writableMembers_iff {members : List (PyStr × Value)} :
    writableMembers members = true ↔
      ∀ key ∈ members.map Prod.fst, encodable key = true ∧ writable (get members key) = true := by
  induction members with
  | nil => simp [writableMembers]
  | cons m members ih =>
      obtain ⟨key, v⟩ := m
      rw [writableMembers, Bool.and_eq_true, ih, List.map_cons, List.forall_mem_cons,
        Bool.or_eq_true, decide_eq_true_eq, Bool.and_eq_true, get_cons]
      have hrest : (∀ k ∈ members.map Prod.fst,
            encodable k = true ∧ writable (get ((key, v) :: members) k) = true) ↔
          ∀ k ∈ members.map Prod.fst, encodable k = true ∧ writable (get members k) = true := by
        refine forall₂_congr fun k hk => ?_
        rw [get_cons, if_pos hk]
      rw [hrest]
      by_cases hlater : key ∈ members.map Prod.fst
      · rw [if_pos hlater]
        refine ⟨?_, ?_⟩
        · intro h
          exact ⟨h.2 key hlater, h.2⟩
        · intro h
          exact ⟨Or.inl hlater, h.2⟩
      · rw [if_neg hlater, if_pos rfl]
        refine and_congr_left fun _ => ?_
        exact or_iff_right hlater

end Json
