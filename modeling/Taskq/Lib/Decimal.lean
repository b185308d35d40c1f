import Mathlib.Data.List.Lex
import Mathlib.Data.Nat.Digits.Defs
import Mathlib.Order.Lex
import Mathlib.Tactic.IntervalCases
import Mathlib.Tactic.Ring

/-!
# Taskq.Lib.Decimal

Zero-padded decimal fields, and why texts made of them compare like the numbers.

`padded w n` is the field `%0wd` of a format string. `render` writes a list of
numbers through a list of fields, each followed by a fixed separator. As long as
every number fits its field, two texts of one format compare lexicographically as
the lists of numbers do (`render_lt_render`), which is what lets a database sort
and compare timestamps stored as text.
-/

namespace Decimal

/-- The decimal digit of `n % 10`. -/
def digit (n : ℕ) : Char := Nat.digitChar (n % 10)

/-- `n` in `w` decimal digits, padded with zeros; higher digits are dropped. -/
def padded : ℕ → ℕ → List Char
  | 0, _ => []
  | w + 1, n => digit (n / 10 ^ w) :: padded w n

@[simp] theorem padded_length (w n : ℕ) : (padded w n).length = w := by
  induction w with
  | zero => rfl
  | succ w ih => rw [padded, List.length_cons, ih]

/-- Only the last `w` digits matter. -/
theorem padded_mod (w v n : ℕ) (h : w ≤ v) : padded w (n % 10 ^ v) = padded w n := by
  induction w with
  | zero => rfl
  | succ w ih =>
      have hdigit : digit (n % 10 ^ v / 10 ^ w) = digit (n / 10 ^ w) := by
        obtain ⟨k, rfl⟩ := Nat.exists_eq_add_of_le h
        have hpow : 10 ^ (w + 1 + k) = 10 ^ w * 10 ^ (k + 1) := by ring
        rw [digit, digit, hpow, Nat.mod_mul_right_div_self, pow_succ,
          Nat.mod_mul_left_mod]
      rw [padded, padded, hdigit, ih (by omega)]

theorem digit_lt_digit {a b : ℕ} (ha : a < 10) (hb : b < 10) : digit a < digit b ↔ a < b := by
  interval_cases a <;> interval_cases b <;> decide

theorem digit_inj {a b : ℕ} (ha : a < 10) (hb : b < 10) : digit a = digit b ↔ a = b := by
  interval_cases a <;> interval_cases b <;> decide

/-- Splitting a number of `w + 1` digits into its leading digit and the rest. -/
theorem lt_iff_leading {w n m : ℕ} :
    n < m ↔ n / 10 ^ w < m / 10 ^ w ∨ n / 10 ^ w = m / 10 ^ w ∧ n % 10 ^ w < m % 10 ^ w := by
  have hn := Nat.div_add_mod n (10 ^ w)
  have hm := Nat.div_add_mod m (10 ^ w)
  have hnr := Nat.mod_lt n (pow_pos (by norm_num : 0 < 10) w)
  have hmr := Nat.mod_lt m (pow_pos (by norm_num : 0 < 10) w)
  rcases lt_trichotomy (n / 10 ^ w) (m / 10 ^ w) with h | h | h
  · have := Nat.mul_le_mul_left (10 ^ w) (Nat.succ_le_of_lt h)
    rw [Nat.mul_succ] at this
    omega
  · rw [h] at hn
    omega
  · have := Nat.mul_le_mul_left (10 ^ w) (Nat.succ_le_of_lt h)
    rw [Nat.mul_succ] at this
    omega

theorem padded_lt_padded {w : ℕ} : ∀ {n m : ℕ}, n < 10 ^ w → m < 10 ^ w →
    (padded w n < padded w m ↔ n < m) := by
  induction w with
  | zero =>
      intro n m hn hm
      have hn0 : n = 0 := by simpa using hn
      have hm0 : m = 0 := by simpa using hm
      subst hn0 hm0
      simp [padded]
  | succ w ih =>
      intro n m hn hm
      have hpos : 0 < 10 ^ w := pow_pos (by norm_num) w
      have hnd : n / 10 ^ w < 10 := by
        rw [Nat.div_lt_iff_lt_mul hpos, mul_comm]
        rwa [pow_succ] at hn
      have hmd : m / 10 ^ w < 10 := by
        rw [Nat.div_lt_iff_lt_mul hpos, mul_comm]
        rwa [pow_succ] at hm
      rw [padded, padded, List.cons_lt_cons_iff, digit_lt_digit hnd hmd, digit_inj hnd hmd,
        ← padded_mod w w n le_rfl, ← padded_mod w w m le_rfl,
        ih (Nat.mod_lt _ hpos) (Nat.mod_lt _ hpos), ← lt_iff_leading]

theorem padded_inj {w n m : ℕ} (hn : n < 10 ^ w) (hm : m < 10 ^ w) :
    padded w n = padded w m ↔ n = m := by
  refine ⟨?_, ?_⟩
  · intro h
    have h1 := (padded_lt_padded hn hm).not
    have h2 := (padded_lt_padded hm hn).not
    rw [h] at h1 h2
    have := h1.mp (List.lt_irrefl _)
    have := h2.mp (List.lt_irrefl _)
    omega
  · intro h
    rw [h]

theorem mem_padded {w n : ℕ} {c : Char} (h : c ∈ padded w n) : ∃ m, c = digit m := by
  induction w with
  | zero => cases h
  | succ w ih =>
      rw [padded] at h
      rcases List.mem_cons.mp h with rfl | h
      · exact ⟨_, rfl⟩
      · exact ih h

theorem padded_ne_nil {w : ℕ} (h : w ≠ 0) (n : ℕ) : padded w n ≠ [] := by
  intro hnil
  have hlen := congrArg List.length hnil
  rw [padded_length] at hlen
  exact h hlen

/-- A property of the ten digits holds of every digit. -/
theorem forall_digit {P : Char → Prop} (h : ∀ m < 10, P (Nat.digitChar m)) (n : ℕ) :
    P (digit n) :=
  h (n % 10) (Nat.mod_lt _ (by norm_num))

/-! ### Reading a field back -/

/-- The value of a decimal digit. -/
def digitVal? (c : Char) : Option ℕ := if '0' ≤ c ∧ c ≤ '9' then some (c.toNat - 48) else none

/-- The value of a text of decimal digits. -/
def value? (cs : List Char) : Option ℕ :=
  cs.foldlM (fun acc c => (digitVal? c).map (acc * 10 + ·)) 0

theorem digitVal?_digit (n : ℕ) : digitVal? (digit n) = some (n % 10) := by
  have h : n % 10 < 10 := Nat.mod_lt _ (by norm_num)
  unfold digit
  generalize n % 10 = d at h
  interval_cases d <;> decide

theorem value?_padded {w n : ℕ} (h : n < 10 ^ w) : value? (padded w n) = some n := by
  have hgo : ∀ (w acc : ℕ), (padded w n).foldlM
      (fun acc c => (digitVal? c).map (acc * 10 + ·)) acc = some (acc * 10 ^ w + n % 10 ^ w) := by
    intro w
    induction w with
    | zero => intro acc; simp [padded, Nat.mod_one]
    | succ w ih =>
        intro acc
        have hsplit : n % 10 ^ (w + 1) = n / 10 ^ w % 10 * 10 ^ w + n % 10 ^ w := by
          rw [pow_succ, Nat.mod_mul, mul_comm, add_comm]
        rw [padded, List.foldlM_cons, digitVal?_digit, Option.map_some, Option.bind_eq_bind,
          Option.bind_some, ih, hsplit]
        congr 1
        ring
  rw [value?, hgo, zero_mul, zero_add, Nat.mod_eq_of_lt h]

/-! ### Texts of several fields -/

/-- Lists of equal length compare by their first difference. -/
theorem append_lt_append {α : Type*} [LT α] {a b c d : List α}
    (h : a.length = b.length) : a ++ c < b ++ d ↔ a < b ∨ a = b ∧ c < d := by
  induction a generalizing b with
  | nil =>
      obtain rfl : b = [] := List.length_eq_zero_iff.mp h.symm
      simp
  | cons x a ih =>
      cases b with
      | nil => simp at h
      | cons y b =>
          rw [List.cons_append, List.cons_append, List.cons_lt_cons_iff, List.cons_lt_cons_iff,
            ih (by simpa using h), List.cons.injEq]
          tauto

/-- A format: the width of each field and the separator that follows it. -/
abbrev Format := List (ℕ × List Char)

/-- Write the numbers through the fields of a format. -/
def render : Format → List ℕ → List Char
  | (w, sep) :: fmt, n :: ns => padded w n ++ (sep ++ render fmt ns)
  | _, _ => []

/-- Every number fits its field, and there is one for each. -/
def Fits : Format → List ℕ → Prop
  | [], [] => True
  | (w, _) :: fmt, n :: ns => n < 10 ^ w ∧ Fits fmt ns
  | _, _ => False

theorem render_length : ∀ {fmt : Format} {ns ms : List ℕ}, Fits fmt ns → Fits fmt ms →
    (render fmt ns).length = (render fmt ms).length
  | [], [], [], _, _ => rfl
  | (w, sep) :: fmt, n :: ns, m :: ms, hn, hm => by
      simp only [render, List.length_append, padded_length, render_length hn.2 hm.2]

/-- **Texts of one format compare like the numbers they show.** -/
theorem render_lt_render : ∀ {fmt : Format} {ns ms : List ℕ}, Fits fmt ns → Fits fmt ms →
    (render fmt ns < render fmt ms ↔ ns < ms)
  | [], [], [], _, _ => by simp [render]
  | (w, sep) :: fmt, n :: ns, m :: ms, hn, hm => by
      rw [render, render, append_lt_append (by simp), append_lt_append rfl,
        padded_lt_padded hn.1 hm.1, padded_inj hn.1 hm.1, render_lt_render hn.2 hm.2,
        List.cons_lt_cons_iff]
      have hsep : ¬ sep < sep := List.lt_irrefl sep
      simp only [hsep, false_or, true_and]

/-- A rendered text is made of digits and of the separators of its format. -/
theorem forall_mem_render {P : Char → Prop} (hdigit : ∀ m < 10, P (Nat.digitChar m)) :
    ∀ {fmt : Format} {ns : List ℕ}, (∀ f ∈ fmt, ∀ c ∈ f.2, P c) → ∀ c ∈ render fmt ns, P c
  | [], _, _, _, h => by simp [render] at h
  | _ :: _, [], _, _, h => by simp [render] at h
  | (w, sep) :: fmt, n :: ns, hsep, c, h => by
      rw [render, List.mem_append, List.mem_append] at h
      rcases h with h | h | h
      · obtain ⟨m, rfl⟩ := mem_padded h
        exact forall_digit hdigit m
      · exact hsep (w, sep) List.mem_cons_self c h
      · exact forall_mem_render hdigit (fun f hf => hsep f (List.mem_cons_of_mem _ hf)) c h

theorem render_inj {fmt : Format} {ns ms : List ℕ} (hn : Fits fmt ns) (hm : Fits fmt ms) :
    render fmt ns = render fmt ms ↔ ns = ms := by
  refine ⟨?_, ?_⟩
  · intro h
    have h1 := (render_lt_render hn hm).not
    have h2 := (render_lt_render hm hn).not
    rw [h] at h1 h2
    exact List.le_antisymm (h2.mp (List.lt_irrefl _)) (h1.mp (List.lt_irrefl _))
  · intro h
    rw [h]

end Decimal
