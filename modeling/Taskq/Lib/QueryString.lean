import Taskq.Lib.Unicode

/-!
# Taskq.Lib.QueryString

Reading a query string, as `urllib.parse.parse_qsl` does with `keep_blank_values=True`.

The fields are split at `&`, each at its first `=`; a `+` becomes a space, and then the
percent escapes of each run of ASCII are decoded as UTF-8. A name and a value without any
of these four characters come out as they are (`parseQsl_field`).
-/

namespace QueryString

open Unicode

def percent : CodePoint := CodePoint.ofChar '%'

def plus : CodePoint := CodePoint.ofChar '+'

def ampersand : CodePoint := CodePoint.ofChar '&'

def equals : CodePoint := CodePoint.ofChar '='

/-- The value of a hexadecimal digit, by its code. -/
def hexValue? (c : CodePoint) : Option ℕ :=
  if 48 ≤ c.val ∧ c.val ≤ 57 then some (c.val - 48)
  else if 65 ≤ c.val ∧ c.val ≤ 70 then some (c.val - 55)
  else if 97 ≤ c.val ∧ c.val ≤ 102 then some (c.val - 87)
  else none

/-- `unquote_to_bytes` of a run of ASCII: a `%` without two digits behind it stays. -/
def unquoteToBytes : PyStr → List Byte
  | [] => []
  | [a] => [byte a.val]
  | [a, b] => [byte a.val, byte b.val]
  | a :: b :: c :: rest =>
      if a = percent then
        match hexValue? b, hexValue? c with
        | some high, some low => byte (high * 16 + low) :: unquoteToBytes rest
        | _, _ => byte a.val :: unquoteToBytes (b :: c :: rest)
      else byte a.val :: unquoteToBytes (b :: c :: rest)

def isAscii (c : CodePoint) : Bool := c.val < 0x80

/-- `unquote`. -/
def unquote (s : PyStr) : PyStr :=
  if percent ∈ s then
    (s.splitBy fun a b => isAscii a = isAscii b).flatMap fun run =>
      if run.all isAscii then decodeReplace (unquoteToBytes run) else run
  else s

/-- `unquote(s.replace("+", " "))`. -/
def unquotePlus (s : PyStr) : PyStr :=
  unquote (s.map fun c => if c = plus then CodePoint.ofChar ' ' else c)

/-- One field, split at its first `=`. -/
def parseField (field : PyStr) : PyStr × PyStr :=
  (unquotePlus (field.takeWhile (· ≠ equals)),
    unquotePlus ((field.dropWhile (· ≠ equals)).drop 1))

/-- `parse_qsl(query, keep_blank_values=True)`. -/
def parseQsl (query : PyStr) : List (PyStr × PyStr) :=
  ((query.splitOn ampersand).filter (· ≠ [])).map parseField

/-- No character that a query string gives a meaning to. -/
def Plain (s : PyStr) : Prop := ∀ c ∈ s, c ∉ [percent, plus, ampersand, equals]

theorem Plain.ne {s : PyStr} (h : Plain s) {c : CodePoint} (hc : c ∈ s) :
    c ≠ percent ∧ c ≠ plus ∧ c ≠ ampersand ∧ c ≠ equals := by
  simpa using h c hc

theorem unquotePlus_of_plain {s : PyStr} (h : Plain s) : unquotePlus s = s := by
  have hmap : (s.map fun c => if c = plus then CodePoint.ofChar ' ' else c) = s := by
    refine (List.map_congr_left fun c hc => ?_).trans (List.map_id' s)
    exact if_neg (h.ne hc).2.1
  rw [unquotePlus, hmap, unquote, if_neg fun hmem => (h.ne hmem).1 rfl]

/-- **A plain field is read as it was written.** -/
theorem parseQsl_field {name value : PyStr} (hname : Plain name) (hvalue : Plain value) :
    parseQsl (name ++ equals :: value) = [(name, value)] := by
  have hone : (name ++ equals :: value).splitOn ampersand = [name ++ equals :: value] := by
    refine List.splitOnP_eq_singleton fun c hc => ?_
    rw [beq_eq_false_iff_ne]
    rcases List.mem_append.mp hc with hc | hc
    · exact (hname.ne hc).2.2.1
    · rcases List.mem_cons.mp hc with rfl | hc
      · decide
      · exact (hvalue.ne hc).2.2.1
  have hall : ∀ c ∈ name, decide (c ≠ equals) = true := fun c hc =>
    decide_eq_true (hname.ne hc).2.2.2
  have htake : (name ++ equals :: value).takeWhile (· ≠ equals) = name := by
    rw [List.takeWhile_append_of_pos hall]
    simp
  have hdrop : (name ++ equals :: value).dropWhile (· ≠ equals) = equals :: value := by
    rw [List.dropWhile_append_of_pos hall]
    simp
  rw [parseQsl, hone, List.filter_cons_of_pos (by simp), List.filter_nil, List.map_singleton,
    parseField, htake, hdrop, List.drop_one, List.tail_cons, unquotePlus_of_plain hname,
    unquotePlus_of_plain hvalue]

end QueryString
