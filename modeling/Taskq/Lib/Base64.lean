import Mathlib.Data.List.DropRight
import Taskq.Lib.Unicode

/-!
# Taskq.Lib.Base64

Python's URL-safe base64 codec.

`encode` is `base64.urlsafe_b64encode`; `decode?` is `base64.urlsafe_b64decode` on a
string. The decoder is CPython's, in its lenient mode, as a fold over the
characters: a character outside the alphabet is skipped, a `=` counts only where it
can complete a group, the first complete padding ends the text, and what is left of
an incomplete group is an error.

`decode?_unpadded` is the round trip a token makes that sheds its padding: the bare
characters, padded again to a multiple of four, decode to the bytes.
-/

namespace Base64

open Unicode

/-! ### Characters -/

/-- The URL-safe alphabet. -/
def alphabet : List Char :=
  "ABCDEFGHIJKLMNOPQRSTUVWXYZabcdefghijklmnopqrstuvwxyz0123456789-_".toList

/-- The character of six bits. -/
def sextetChar (n : ℕ) : Char := alphabet.getD (n % 64) 'A'

/-- The six bits of a character, by its code; both alphabets are read. -/
def sextet? (n : ℕ) : Option ℕ :=
  if 65 ≤ n ∧ n ≤ 90 then some (n - 65)
  else if 97 ≤ n ∧ n ≤ 122 then some (n - 71)
  else if 48 ≤ n ∧ n ≤ 57 then some (n + 4)
  else if n = 43 ∨ n = 45 then some 62
  else if n = 47 ∨ n = 95 then some 63
  else none

/-- The characters a token is made of. -/
def IsTokenChar (c : Char) : Prop := c ∈ alphabet

instance (c : Char) : Decidable (IsTokenChar c) := inferInstanceAs (Decidable (c ∈ alphabet))

theorem sextetChar_mem (n : ℕ) : IsTokenChar (sextetChar n) := by
  have hall : ∀ m < 64, alphabet.getD m 'A' ∈ alphabet := by decide +kernel
  exact hall (n % 64) (Nat.mod_lt _ (by decide))

theorem IsTokenChar.ascii {c : Char} (h : IsTokenChar c) : c.toNat < 0x80 := by
  have hall : alphabet.all (fun c => c.toNat < 0x80) = true := by decide
  exact of_decide_eq_true (List.all_eq_true.mp hall c h)

theorem IsTokenChar.ne_pad {c : Char} (h : IsTokenChar c) : c ≠ '=' := by
  have hall : alphabet.all (fun c => c ≠ '=') = true := by decide
  exact of_decide_eq_true (List.all_eq_true.mp hall c h)

theorem sextet?_sextetChar {n : ℕ} (h : n < 64) : sextet? (sextetChar n).toNat = some n := by
  have hall : ∀ m < 64, sextet? (sextetChar m).toNat = some m := by decide +kernel
  exact hall n h

/-! ### Encoding -/

/-- The characters of the bytes, without padding. -/
def bare : List Byte → List Char
  | [] => []
  | [a] => [sextetChar (a.val / 4), sextetChar (a.val % 4 * 16)]
  | [a, b] =>
      [sextetChar (a.val / 4), sextetChar (a.val % 4 * 16 + b.val / 16),
        sextetChar (b.val % 16 * 4)]
  | a :: b :: c :: rest =>
      sextetChar (a.val / 4) :: sextetChar (a.val % 4 * 16 + b.val / 16) ::
        sextetChar (b.val % 16 * 4 + c.val / 64) :: sextetChar (c.val % 64) :: bare rest

/-- As many `=` as complete a text of `n` characters to a multiple of four. -/
def padding (n : ℕ) : List Char := List.replicate ((4 - n % 4) % 4) '='

/-- `base64.urlsafe_b64encode(bytes).decode("ascii")`. -/
def encode (bytes : List Byte) : List Char := bare bytes ++ padding (bare bytes).length

/-- `text.rstrip("=")`. -/
def stripPadding (cs : List Char) : List Char := cs.rdropWhile (· = '=')

theorem bare_mem : ∀ bytes : List Byte, ∀ c ∈ bare bytes, IsTokenChar c
  | [], c, h => by cases h
  | [a], c, h => by
      simp only [bare, List.mem_cons, List.not_mem_nil, or_false] at h
      rcases h with rfl | rfl <;> exact sextetChar_mem _
  | [a, b], c, h => by
      simp only [bare, List.mem_cons, List.not_mem_nil, or_false] at h
      rcases h with rfl | rfl | rfl <;> exact sextetChar_mem _
  | a :: b :: c :: rest, d, h => by
      simp only [bare, List.mem_cons] at h
      rcases h with rfl | rfl | rfl | rfl | h
      iterate 4 exact sextetChar_mem _
      exact bare_mem rest d h

theorem length_bare : ∀ bytes : List Byte, (bare bytes).length = (4 * bytes.length + 2) / 3
  | [] => rfl
  | [_] => by simp [bare]
  | [_, _] => by simp [bare]
  | _ :: _ :: _ :: bytes => by
      simp only [bare, List.length_cons, length_bare bytes]
      omega

theorem bare_ne_nil {bytes : List Byte} (h : bytes ≠ []) : bare bytes ≠ [] := by
  match bytes with
  | [] => exact absurd rfl h
  | [_] => simp [bare]
  | [_, _] => simp [bare]
  | _ :: _ :: _ :: _ => simp [bare]

/-- Shedding the padding leaves the bare characters. -/
theorem stripPadding_encode (bytes : List Byte) : stripPadding (encode bytes) = bare bytes := by
  have hreplicate : ∀ n (cs : List Char), (cs ++ List.replicate n '=').rdropWhile (· = '=')
      = cs.rdropWhile (· = '=') := by
    intro n cs
    induction n with
    | zero => rw [List.replicate_zero, List.append_nil]
    | succ n ih =>
        rw [List.replicate_succ', ← List.append_assoc, List.rdropWhile_concat_pos _ _ _ (by simp),
          ih]
  rw [stripPadding, encode, padding, hreplicate, List.rdropWhile_eq_self_iff]
  intro hne hlast
  exact (bare_mem bytes _ (List.getLast_mem hne)).ne_pad (by simpa using hlast)

/-! ### Decoding -/

/-- The decoder between two characters. -/
structure Decoder where
  /-- The position in the group of four. -/
  quad : ℕ
  /-- The bits not yet written. -/
  left : ℕ
  /-- The `=` seen since the last data character. -/
  pads : ℕ
  /-- A padding was complete: the rest is not read. -/
  done : Bool
  out : List Byte
  deriving DecidableEq

namespace Decoder

def start : Decoder where
  quad := 0
  left := 0
  pads := 0
  done := false
  out := []

/-- A data character of six bits. -/
def data (s : Decoder) (x : ℕ) : Decoder :=
  match s.quad with
  | 0 => { quad := 1, left := x, pads := 0, done := false, out := s.out }
  | 1 =>
      { quad := 2, left := x % 16, pads := 0, done := false
        out := s.out ++ [byte (s.left * 4 + x / 16)] }
  | 2 =>
      { quad := 3, left := x % 4, pads := 0, done := false
        out := s.out ++ [byte (s.left * 16 + x / 4)] }
  | _ =>
      { quad := 0, left := 0, pads := 0, done := false
        out := s.out ++ [byte (s.left * 64 + x)] }

/-- A `=`. -/
def pad (s : Decoder) : Decoder :=
  if 2 ≤ s.quad then
    { quad := s.quad, left := s.left, pads := s.pads + 1
      done := 4 ≤ s.quad + (s.pads + 1), out := s.out }
  else s

/-- One character, by its code. -/
def step (s : Decoder) (n : ℕ) : Decoder :=
  if s.done then s
  else if n = 61 then s.pad
  else
    match sextet? n with
    | none => s
    | some x => s.data x

/-- The end of the text: an incomplete group without its padding is an error. -/
def finish (s : Decoder) : Option (List Byte) :=
  if s.done ∨ s.quad = 0 then some s.out else none

end Decoder

/-- `base64.urlsafe_b64decode(token)`; `none` stands for `ValueError`. -/
def decode? (token : PyStr) : Option (List Byte) :=
  if ∀ c ∈ token, c.val < 0x80 then
    (token.foldl (fun s c => s.step c.val) Decoder.start).finish
  else none

/-! ### The round trip -/

/-- The decoder between two groups, with `out` written. -/
def Decoder.between (out : List Byte) : Decoder where
  quad := 0
  left := 0
  pads := 0
  done := false
  out := out

/-- While the padding is not complete, a character of the alphabet is data. -/
theorem Decoder.step_sextetChar {quad left pads x : ℕ} {out : List Byte} (h : x < 64) :
    Decoder.step ⟨quad, left, pads, false, out⟩ (sextetChar x).toNat =
      Decoder.data ⟨quad, left, pads, false, out⟩ x := by
  have hpad : (sextetChar x).toNat ≠ 61 := by
    have hall : ∀ m < 64, (sextetChar m).toNat ≠ 61 := by decide +kernel
    exact hall x h
  rw [Decoder.step, if_neg (by simp), if_neg hpad, sextet?_sextetChar h]

/-- A whole group of four characters writes its three bytes. -/
theorem Decoder.foldl_group (a b c : Byte) (out : List Byte) :
    ([sextetChar (a.val / 4), sextetChar (a.val % 4 * 16 + b.val / 16),
        sextetChar (b.val % 16 * 4 + c.val / 64), sextetChar (c.val % 64)].foldl
      (fun s d => s.step d.toNat) (Decoder.between out)) = Decoder.between (out ++ [a, b, c]) := by
  have ha : byte (a.val / 4 * 4 + (a.val % 4 * 16 + b.val / 16) / 16) = a :=
    Fin.ext (by rw [byte_val]; omega)
  have hb : byte ((a.val % 4 * 16 + b.val / 16) % 16 * 16 + (b.val % 16 * 4 + c.val / 64) / 4)
      = b := Fin.ext (by rw [byte_val]; omega)
  have hc : byte ((b.val % 16 * 4 + c.val / 64) % 4 * 64 + c.val % 64) = c :=
    Fin.ext (by rw [byte_val]; omega)
  simp (disch := omega) only [List.foldl_cons, List.foldl_nil, Decoder.between,
    Decoder.step_sextetChar, Decoder.data, ha, hb, hc, List.append_assoc, List.cons_append,
    List.nil_append]

/-- Decoding the padded characters of the bytes, from between two groups. -/
theorem finish_foldl_bare : ∀ (bytes out : List Byte),
    ((bare bytes ++ padding (bare bytes).length).foldl (fun s c => s.step c.toNat)
      (Decoder.between out)).finish = some (out ++ bytes)
  | [], out => by simp [bare, padding, Decoder.finish, Decoder.between]
  | [a], out => by
      have ha : byte (a.val / 4 * 4 + (a.val % 4 * 16) / 16) = a :=
        Fin.ext (by rw [byte_val]; omega)
      simp (disch := omega) only [bare, padding, List.length_cons, List.length_nil,
        List.cons_append, List.nil_append, List.foldl_cons, Decoder.between,
        Decoder.step_sextetChar, Decoder.data, ha]
      simp [Decoder.step, Decoder.pad, Decoder.finish, List.replicate]
  | [a, b], out => by
      have ha : byte (a.val / 4 * 4 + (a.val % 4 * 16 + b.val / 16) / 16) = a :=
        Fin.ext (by rw [byte_val]; omega)
      have hb : byte ((a.val % 4 * 16 + b.val / 16) % 16 * 16 + (b.val % 16 * 4) / 4) = b :=
        Fin.ext (by rw [byte_val]; omega)
      simp (disch := omega) only [bare, padding, List.length_cons, List.length_nil,
        List.cons_append, List.nil_append, List.foldl_cons, Decoder.between,
        Decoder.step_sextetChar, Decoder.data, ha, hb, List.append_assoc]
      simp [Decoder.step, Decoder.pad, Decoder.finish]
  | a :: b :: c :: rest, out => by
      have hlen : padding (bare (a :: b :: c :: rest)).length = padding (bare rest).length := by
        simp only [padding, bare, List.length_cons]
        congr 1
        omega
      have hgroup : bare (a :: b :: c :: rest) = [sextetChar (a.val / 4),
          sextetChar (a.val % 4 * 16 + b.val / 16), sextetChar (b.val % 16 * 4 + c.val / 64),
          sextetChar (c.val % 64)] ++ bare rest := rfl
      rw [hlen, hgroup, List.append_assoc, List.foldl_append, Decoder.foldl_group,
        finish_foldl_bare rest]
      simp

/-- **A token without its padding, padded again, decodes to the bytes.** -/
theorem decode?_bare (bytes : List Byte) :
    decode? (PyStr.ofChars (bare bytes) ++ PyStr.ofChars (padding (bare bytes).length))
      = some bytes := by
  have hascii : ∀ c ∈ PyStr.ofChars (bare bytes ++ padding (bare bytes).length), c.val < 0x80 := by
    intro c hc
    obtain ⟨d, hd, rfl⟩ := List.mem_map.mp hc
    rcases List.mem_append.mp hd with hd | hd
    · exact (bare_mem bytes d hd).ascii
    · rw [List.eq_of_mem_replicate hd]
      decide
  have happend : PyStr.ofChars (bare bytes) ++ PyStr.ofChars (padding (bare bytes).length)
      = PyStr.ofChars (bare bytes ++ padding (bare bytes).length) := List.map_append.symm
  rw [happend, decode?, if_pos hascii, PyStr.ofChars, List.foldl_map]
  exact finish_foldl_bare bytes []

end Base64
