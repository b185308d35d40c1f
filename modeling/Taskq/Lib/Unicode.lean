import Mathlib.Algebra.GroupWithZero.Nat
import Mathlib.Data.Fin.Basic
import Mathlib.Data.List.Basic

/-!
# Taskq.Lib.Unicode

Python's `str` and its UTF-8 codec.

A Python string is a list of code points, where *any* code point may stand, the
surrogates included (`"\ud800"` is a string of length one). A Lean `Char` is a
scalar value, so `List Char` is the strings without surrogates: what the strict
UTF-8 codec writes and reads. The codec itself goes code point by code point;
a surrogate cannot be written, and an overlong form, a surrogate or a value
above `U+10FFFF` cannot be read. With `errors="replace"` every byte string is read.
-/

namespace Unicode

/-- A code point, surrogates included. -/
abbrev CodePoint := Fin 0x110000

/-- A byte. -/
abbrev Byte := Fin 256

/-- A Python string. -/
abbrev PyStr := List CodePoint

instance CodePoint.instNeZero : NeZero 0x110000 := inferInstance

instance CodePoint.instLawfulBEq : LawfulBEq CodePoint := inferInstance

instance PyStr.instLawfulBEq : LawfulBEq PyStr := inferInstance

/-- A condition on the characters of a text is tested on those, not on all there are. -/
instance instDecidableForallMem (s : List Char) (p : Char → Prop) [DecidablePred p] :
    Decidable (∀ c ∈ s, p c) := List.decidableBAll p s

/-- The byte `n % 256`. -/
def byte (n : ℕ) : Byte := Fin.ofNat 256 n

@[simp] theorem byte_val (n : ℕ) : (byte n).val = n % 256 := rfl

theorem char_lt (c : Char) : c.toNat < 0x110000 := by
  rcases c.valid with h | ⟨-, h⟩
  · exact lt_trans h (by decide)
  · exact h

theorem toNat_ofNat_of_valid {n : ℕ} (h : n.isValidChar) : (Char.ofNat n).toNat = n := by
  rw [Char.ofNat, dif_pos h]
  rfl

theorem toNat_ofNat {n : ℕ} (h : n < 0xD800) : (Char.ofNat n).toNat = n :=
  toNat_ofNat_of_valid (Or.inl h)

/-- The code point of a character. -/
def CodePoint.ofChar (c : Char) : CodePoint := ⟨c.toNat, char_lt c⟩

/-- The Python string of a list of characters. -/
def PyStr.ofChars (cs : List Char) : PyStr := cs.map CodePoint.ofChar

/-- The Python string of a Lean string. -/
def PyStr.ofString (s : String) : PyStr := PyStr.ofChars s.toList

@[simp] theorem CodePoint.ofChar_val (c : Char) : (CodePoint.ofChar c).val = c.toNat := rfl

theorem CodePoint.ofChar_injective : Function.Injective CodePoint.ofChar := by
  intro a b h
  have hval : a.toNat = b.toNat := congrArg (fun x : CodePoint => x.val) h
  exact Char.toNat_inj.mp hval

theorem PyStr.ofChars_injective : Function.Injective PyStr.ofChars :=
  List.map_injective_iff.mpr CodePoint.ofChar_injective

@[simp] theorem PyStr.ofString_eq_nil {s : String} : PyStr.ofString s = [] ↔ s = "" := by
  rw [PyStr.ofString, PyStr.ofChars, List.map_eq_nil_iff, String.toList_eq_nil_iff]

/-! ### UTF-8 -/

/-- `U+D800` to `U+DFFF`. -/
def IsSurrogate (n : ℕ) : Prop := 0xD800 ≤ n ∧ n ≤ 0xDFFF

instance (n : ℕ) : Decidable (IsSurrogate n) := inferInstanceAs (Decidable (_ ∧ _))

/-- The characters of a string; `none` when there is a surrogate in it. -/
def PyStr.chars? (s : PyStr) : Option (List Char) :=
  s.mapM fun c => if IsSurrogate c.val then none else some (Char.ofNat c.val)

theorem not_isSurrogate_char (c : Char) : ¬ IsSurrogate c.toNat := by
  intro hrange
  obtain ⟨hlow, hhigh⟩ := hrange
  rcases c.valid with h | ⟨h, -⟩
  · have hlt : c.toNat < 0xD800 := h
    omega
  · have hlt : 0xDFFF < c.toNat := h
    omega

theorem PyStr.chars?_ofChars (cs : List Char) : (PyStr.ofChars cs).chars? = some cs := by
  induction cs with
  | nil => rfl
  | cons c cs ih =>
      rw [PyStr.chars?, PyStr.ofChars] at ih
      rw [PyStr.chars?, PyStr.ofChars, List.map_cons, List.mapM_cons, ih]
      simp [not_isSurrogate_char, Char.ofNat_toNat]

theorem CodePoint.ofChar_ofNat {c : CodePoint} (h : ¬ IsSurrogate c.val) :
    CodePoint.ofChar (Char.ofNat c.val) = c := by
  have hbound := c.isLt
  have hvalid : c.val.isValidChar := by
    unfold IsSurrogate at h
    unfold Nat.isValidChar
    omega
  exact Fin.ext (toNat_ofNat_of_valid hvalid)

/-- Only a string's own characters are read off it. -/
theorem PyStr.eq_ofChars {s : PyStr} {cs : List Char} (h : s.chars? = some cs) :
    s = PyStr.ofChars cs := by
  induction s generalizing cs with
  | nil =>
      obtain rfl : [] = cs := by simpa [PyStr.chars?] using h
      rfl
  | cons c s ih =>
      rw [PyStr.chars?, List.mapM_cons] at h
      by_cases hc : IsSurrogate c.val
      · rw [if_pos hc] at h
        cases h
      · rw [if_neg hc] at h
        cases hrest : PyStr.chars? s with
        | none =>
            rw [PyStr.chars?] at hrest
            rw [hrest] at h
            cases h
        | some ds =>
            rw [ih hrest]
            rw [PyStr.chars?] at hrest
            rw [hrest] at h
            cases h
            rw [PyStr.ofChars, PyStr.ofChars, List.map_cons, CodePoint.ofChar_ofNat hc]

/-- A string without surrogates is one of characters. -/
theorem PyStr.exists_chars? {s : PyStr} (h : ∀ c ∈ s, ¬ IsSurrogate c.val) :
    ∃ cs, s.chars? = some cs := by
  refine ⟨s.map fun c => Char.ofNat c.val, ?_⟩
  have heq : PyStr.ofChars (s.map fun c => Char.ofNat c.val) = s := by
    rw [PyStr.ofChars, List.map_map]
    conv_rhs => rw [← List.map_id s]
    exact List.map_congr_left fun c hc => CodePoint.ofChar_ofNat (h c hc)
  conv_lhs => rw [← heq]
  exact PyStr.chars?_ofChars _

theorem PyStr.chars?_ofString (s : String) : (PyStr.ofString s).chars? = some s.toList :=
  PyStr.chars?_ofChars s.toList

/-- The bytes of one code point; `none` for a surrogate. -/
def encodePoint (c : CodePoint) : Option (List Byte) :=
  let n := c.val
  if n < 0x80 then some [byte n]
  else if n < 0x800 then some [byte (0xC0 + n / 64), byte (0x80 + n % 64)]
  else if IsSurrogate n then none
  else if n < 0x10000 then
    some [byte (0xE0 + n / 4096), byte (0x80 + n / 64 % 64), byte (0x80 + n % 64)]
  else
    some [byte (0xF0 + n / 262144), byte (0x80 + n / 4096 % 64), byte (0x80 + n / 64 % 64),
      byte (0x80 + n % 64)]

/-- `str.encode("utf-8")`; `none` stands for `UnicodeEncodeError`. -/
def encode? (s : PyStr) : Option (List Byte) := (s.mapM encodePoint).map List.flatten

/-- The low six bits of a continuation byte. -/
def continuation? (b : Byte) : Option ℕ :=
  if 0x80 ≤ b.val ∧ b.val < 0xC0 then some (b.val - 0x80) else none

/-- A decoded value of at least `least` that is a scalar value. -/
def scalar? (least n : ℕ) : Option Char :=
  if least ≤ n ∧ n < 0x110000 ∧ ¬ IsSurrogate n then some (Char.ofNat n) else none

/-- `bytes.decode("utf-8")`; `none` stands for `UnicodeDecodeError`. -/
def decode? : List Byte → Option (List Char)
  | [] => some []
  | b :: rest =>
      if b.val < 0x80 then
        (decode? rest).map (Char.ofNat b.val :: ·)
      else if 0xC0 ≤ b.val ∧ b.val < 0xE0 then
        match rest with
        | b₁ :: rest => do
            let x₁ ← continuation? b₁
            let c ← scalar? 0x80 ((b.val - 0xC0) * 64 + x₁)
            (decode? rest).map (c :: ·)
        | _ => none
      else if 0xE0 ≤ b.val ∧ b.val < 0xF0 then
        match rest with
        | b₁ :: b₂ :: rest => do
            let x₁ ← continuation? b₁
            let x₂ ← continuation? b₂
            let c ← scalar? 0x800 ((b.val - 0xE0) * 4096 + x₁ * 64 + x₂)
            (decode? rest).map (c :: ·)
        | _ => none
      else if 0xF0 ≤ b.val ∧ b.val < 0xF8 then
        match rest with
        | b₁ :: b₂ :: b₃ :: rest => do
            let x₁ ← continuation? b₁
            let x₂ ← continuation? b₂
            let x₃ ← continuation? b₃
            let c ← scalar? 0x10000 ((b.val - 0xF0) * 262144 + x₁ * 4096 + x₂ * 64 + x₃)
            (decode? rest).map (c :: ·)
        | _ => none
      else none

/-- A text of ASCII characters. -/
def Ascii (cs : List Char) : Prop := ∀ c ∈ cs, c.toNat < 0x80

theorem Ascii.append {cs ds : List Char} (hc : Ascii cs) (hd : Ascii ds) : Ascii (cs ++ ds) := by
  intro c h
  rcases List.mem_append.mp h with h | h
  · exact hc c h
  · exact hd c h

theorem encodePoint_ascii {c : Char} (h : c.toNat < 0x80) :
    encodePoint (CodePoint.ofChar c) = some [byte c.toNat] := by
  simp [encodePoint, h]

/-- An ASCII text is its own encoding, byte by character. -/
theorem encode?_ascii {cs : List Char} (h : Ascii cs) :
    encode? (PyStr.ofChars cs) = some (cs.map fun c => byte c.toNat) := by
  have hpoints : (PyStr.ofChars cs).mapM encodePoint = some (cs.map fun c => [byte c.toNat]) := by
    induction cs with
    | nil => rfl
    | cons c cs ih =>
        have hhead := encodePoint_ascii (h c List.mem_cons_self)
        have htail := ih fun d hd => h d (List.mem_cons_of_mem _ hd)
        rw [PyStr.ofChars] at htail
        rw [PyStr.ofChars, List.map_cons, List.mapM_cons, hhead, htail]
        rfl
  rw [encode?, hpoints, Option.map_some, ← List.flatMap_def, ← List.map_eq_flatMap]

/-- Decoding the bytes of an ASCII text gives the text back. -/
theorem decode?_ascii {cs : List Char} (h : Ascii cs) :
    decode? (cs.map fun c => byte c.toNat) = some cs := by
  induction cs with
  | nil => rfl
  | cons c cs ih =>
      have hc : c.toNat < 0x80 := h c List.mem_cons_self
      have hval : (byte c.toNat).val = c.toNat := by
        rw [byte_val, Nat.mod_eq_of_lt (by omega)]
      have htail := ih fun d hd => h d (List.mem_cons_of_mem _ hd)
      rw [List.map_cons]
      unfold decode?
      rw [if_pos (by rw [hval]; exact hc), htail, hval, Char.ofNat_toNat, Option.map_some]

/-! ### Decoding with replacement -/

/-- `U+FFFD`. -/
def replacement : CodePoint := 0xFFFD

def point (n : ℕ) : CodePoint := Fin.ofNat 0x110000 n

def isContinuation (b : Byte) : Bool := 0x80 ≤ b.val && b.val < 0xC0

/-- May this byte stand behind this lead? Here an overlong form, a surrogate and a value above
`U+10FFFF` are found out. -/
def isSecond (lead b : Byte) : Bool :=
  isContinuation b && (lead.val ≠ 0xE0 || 0xA0 ≤ b.val) && (lead.val ≠ 0xED || b.val < 0xA0) &&
    (lead.val ≠ 0xF0 || 0x90 ≤ b.val) && (lead.val ≠ 0xF4 || b.val < 0x90)

/-- `bytes.decode(errors="replace")`: the longest beginning of a character that nothing
completes becomes one `U+FFFD`. -/
def decodeReplace : List Byte → PyStr
  | [] => []
  | b :: rest =>
      if b.val < 0x80 then
        point b.val :: decodeReplace rest
      else if 0xC2 ≤ b.val ∧ b.val < 0xE0 then
        match rest with
        | [] => [replacement]
        | b₁ :: rest₁ =>
            if isContinuation b₁ then
              point ((b.val - 0xC0) * 64 + (b₁.val - 0x80)) :: decodeReplace rest₁
            else replacement :: decodeReplace (b₁ :: rest₁)
      else if 0xE0 ≤ b.val ∧ b.val < 0xF0 then
        match rest with
        | [] => [replacement]
        | b₁ :: rest₁ =>
            if isSecond b b₁ then
              match rest₁ with
              | [] => [replacement]
              | b₂ :: rest₂ =>
                  if isContinuation b₂ then
                    point ((b.val - 0xE0) * 4096 + (b₁.val - 0x80) * 64 + (b₂.val - 0x80)) ::
                      decodeReplace rest₂
                  else replacement :: decodeReplace (b₂ :: rest₂)
            else replacement :: decodeReplace (b₁ :: rest₁)
      else if 0xF0 ≤ b.val ∧ b.val < 0xF5 then
        match rest with
        | [] => [replacement]
        | b₁ :: rest₁ =>
            if isSecond b b₁ then
              match rest₁ with
              | [] => [replacement]
              | b₂ :: rest₂ =>
                  if isContinuation b₂ then
                    match rest₂ with
                    | [] => [replacement]
                    | b₃ :: rest₃ =>
                        if isContinuation b₃ then
                          point ((b.val - 0xF0) * 262144 + (b₁.val - 0x80) * 4096 +
                            (b₂.val - 0x80) * 64 + (b₃.val - 0x80)) :: decodeReplace rest₃
                        else replacement :: decodeReplace (b₃ :: rest₃)
                  else replacement :: decodeReplace (b₂ :: rest₂)
            else replacement :: decodeReplace (b₁ :: rest₁)
      else replacement :: decodeReplace rest
@[simp] theorem point_val (c : CodePoint) : point c.val = c := Fin.ofNat_val_eq_self c

theorem byte_val_of_lt {n : ℕ} (h : n < 256) : (byte n).val = n := by
  rw [byte_val, Nat.mod_eq_of_lt h]

theorem isContinuation_iff {b : Byte} : isContinuation b ↔ 0x80 ≤ b.val ∧ b.val < 0xC0 := by
  simp [isContinuation]

theorem isSecond_iff {lead b : Byte} :
    isSecond lead b ↔ isContinuation b ∧ (lead.val = 0xE0 → 0xA0 ≤ b.val) ∧
      (lead.val = 0xED → b.val < 0xA0) ∧ (lead.val = 0xF0 → 0x90 ≤ b.val) ∧
      (lead.val = 0xF4 → b.val < 0x90) := by
  simp only [isSecond, Bool.and_eq_true, Bool.or_eq_true, decide_eq_true_eq]
  tauto

theorem isContinuation_byte {n : ℕ} (h : n < 64) : isContinuation (byte (0x80 + n)) := by
  rw [isContinuation_iff, byte_val_of_lt (by omega)]
  omega

theorem isSecond_byte {m n : ℕ} (hm : m < 256) (h : n < 64) (he0 : m = 0xE0 → 0x20 ≤ n)
    (hed : m = 0xED → n < 0x20) (hf0 : m = 0xF0 → 0x10 ≤ n) (hf4 : m = 0xF4 → n < 0x10) :
    isSecond (byte m) (byte (0x80 + n)) := by
  rw [isSecond_iff, byte_val_of_lt hm, byte_val_of_lt (by omega)]
  refine ⟨isContinuation_byte h, ?_, ?_, ?_, ?_⟩ <;> omega

/-- What a code point is written as is read as this code point. -/
theorem decodeReplace_encodePoint {c : CodePoint} {bs : List Byte} (h : encodePoint c = some bs)
    (rest : List Byte) : decodeReplace (bs ++ rest) = c :: decodeReplace rest := by
  have hlt := c.isLt
  have hlow := isContinuation_byte (Nat.mod_lt c.val (by decide : 64 > 0))
  have hmid := isContinuation_byte (Nat.mod_lt (c.val / 64) (by decide : 64 > 0))
  simp only [encodePoint] at h
  split_ifs at h with h₁ h₂ hsurrogate h₃
  · obtain rfl := Option.some.inj h
    rw [List.singleton_append]
    conv_lhs => unfold decodeReplace
    rw [byte_val_of_lt (by omega), if_pos h₁, point_val]
  · obtain rfl := Option.some.inj h
    have hvalue : (0xC0 + c.val / 64 - 0xC0) * 64 + (0x80 + c.val % 64 - 0x80) = c.val := by omega
    rw [List.cons_append, List.singleton_append]
    conv_lhs => unfold decodeReplace
    simp only [hlow, byte_val_of_lt (by omega : 0xC0 + c.val / 64 < 256),
      byte_val_of_lt (by omega : 0x80 + c.val % 64 < 256)]
    rw [if_neg (by omega), if_pos (by omega), if_pos trivial, hvalue, point_val]
  · obtain rfl := Option.some.inj h
    have hsecond : isSecond (byte (0xE0 + c.val / 4096)) (byte (0x80 + c.val / 64 % 64)) := by
      rw [IsSurrogate] at hsurrogate
      apply isSecond_byte <;> omega
    have hvalue : (0xE0 + c.val / 4096 - 0xE0) * 4096 + (0x80 + c.val / 64 % 64 - 0x80) * 64 +
        (0x80 + c.val % 64 - 0x80) = c.val := by omega
    simp only [List.cons_append, List.nil_append]
    conv_lhs => unfold decodeReplace
    simp only [hlow, hsecond, byte_val_of_lt (by omega : 0xE0 + c.val / 4096 < 256),
      byte_val_of_lt (by omega : 0x80 + c.val / 64 % 64 < 256),
      byte_val_of_lt (by omega : 0x80 + c.val % 64 < 256)]
    rw [if_neg (by omega), if_neg (by omega), if_pos (by omega), if_pos trivial, if_pos trivial,
      hvalue, point_val]
  · obtain rfl := Option.some.inj h
    have hsecond : isSecond (byte (0xF0 + c.val / 262144)) (byte (0x80 + c.val / 4096 % 64)) := by
      apply isSecond_byte <;> omega
    have hvalue : (0xF0 + c.val / 262144 - 0xF0) * 262144 +
        (0x80 + c.val / 4096 % 64 - 0x80) * 4096 + (0x80 + c.val / 64 % 64 - 0x80) * 64 +
          (0x80 + c.val % 64 - 0x80) = c.val := by omega
    simp only [List.cons_append, List.nil_append]
    conv_lhs => unfold decodeReplace
    simp only [hlow, hmid, hsecond, byte_val_of_lt (by omega : 0xF0 + c.val / 262144 < 256),
      byte_val_of_lt (by omega : 0x80 + c.val / 4096 % 64 < 256),
      byte_val_of_lt (by omega : 0x80 + c.val / 64 % 64 < 256),
      byte_val_of_lt (by omega : 0x80 + c.val % 64 < 256)]
    rw [if_neg (by omega), if_neg (by omega), if_neg (by omega), if_pos (by omega), if_pos trivial,
      if_pos trivial, if_pos trivial, hvalue, point_val]

theorem decodeReplace_encode? {s : PyStr} {bs : List Byte} (h : encode? s = some bs) :
    decodeReplace bs = s := by
  obtain ⟨pieces, hpieces, rfl⟩ := Option.map_eq_some_iff.mp h
  clear h
  induction s generalizing pieces with
  | nil =>
      obtain rfl : pieces = [] := by simpa using hpieces.symm
      rfl
  | cons c s ih =>
      rw [List.mapM_cons] at hpieces
      obtain ⟨piece, hpiece, hlater⟩ := Option.bind_eq_some_iff.mp hpieces
      obtain ⟨pieces', hpieces', heq⟩ := Option.bind_eq_some_iff.mp hlater
      obtain rfl := Option.some.inj heq
      rw [List.flatten_cons, decodeReplace_encodePoint hpiece, ih pieces' hpieces']

theorem exists_encodePoint {c : CodePoint} (h : ¬ IsSurrogate c.val) :
    ∃ bs, encodePoint c = some bs := by
  simp only [encodePoint]
  split_ifs
  all_goals exact ⟨_, rfl⟩

theorem exists_encode? {s : PyStr} (h : ∀ c ∈ s, ¬ IsSurrogate c.val) :
    ∃ bs, encode? s = some bs := by
  suffices hpieces : ∃ pieces, s.mapM encodePoint = some pieces by
    obtain ⟨pieces, hpieces⟩ := hpieces
    exact ⟨pieces.flatten, by rw [encode?, hpieces, Option.map_some]⟩
  induction s with
  | nil => exact ⟨[], rfl⟩
  | cons c s ih =>
      obtain ⟨piece, hpiece⟩ := exists_encodePoint (h c List.mem_cons_self)
      obtain ⟨pieces, hpieces⟩ := ih fun d hd => h d (List.mem_cons_of_mem c hd)
      exact ⟨piece :: pieces, by rw [List.mapM_cons, hpiece, hpieces]; rfl⟩

theorem point_not_surrogate {n : ℕ} (h : n < 0xD800 ∨ 0xE000 ≤ n ∧ n < 0x110000) :
    ¬ IsSurrogate (point n).val := by
  rintro ⟨hlow, hhigh⟩
  simp only [point, Fin.val_ofNat] at hlow hhigh
  omega

/-- Decoding never makes a surrogate. -/
theorem not_isSurrogate_decodeReplace (bs : List Byte) :
    ∀ c ∈ decodeReplace bs, ¬ IsSurrogate c.val := by
  have hreplacement : ¬ IsSurrogate replacement.val := by decide
  fun_induction decodeReplace bs
  case case2 b rest hb ih =>
      exact List.forall_mem_cons.mpr ⟨point_not_surrogate (by omega), ih⟩
  case case4 b _ hb b₁ rest hb₁ ih =>
      rw [isContinuation_iff] at hb₁
      exact List.forall_mem_cons.mpr ⟨point_not_surrogate (by omega), ih⟩
  case case8 b _ _ hb b₁ hb₁ b₂ rest hb₂ ih =>
      rw [isSecond_iff, isContinuation_iff] at hb₁
      rw [isContinuation_iff] at hb₂
      exact List.forall_mem_cons.mpr ⟨point_not_surrogate (by omega), ih⟩
  case case14 b _ _ _ hb b₁ hb₁ b₂ hb₂ b₃ rest hb₃ ih =>
      rw [isSecond_iff, isContinuation_iff] at hb₁
      rw [isContinuation_iff] at hb₂ hb₃
      exact List.forall_mem_cons.mpr ⟨point_not_surrogate (by omega), ih⟩
  -- What is left of a character that nothing completes is one replacement.
  all_goals simp_all

/-- What some bytes are decoded to can be written. -/
theorem exists_decodeReplace {s : PyStr} (h : ∀ c ∈ s, ¬ IsSurrogate c.val) :
    ∃ bs, decodeReplace bs = s := by
  obtain ⟨bs, hbs⟩ := exists_encode? h
  exact ⟨bs, decodeReplace_encode? hbs⟩

end Unicode
