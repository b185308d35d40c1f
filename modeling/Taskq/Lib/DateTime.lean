import Mathlib.Order.Interval.Finset.Nat
import Mathlib.Algebra.BigOperators.Group.Finset.Basic
import Taskq.Lib.Decimal

/-!
# Taskq.Lib.DateTime

Python's `datetime`: a wall-clock reading in the proleptic Gregorian calendar,
and, for an aware value, its offset from UTC.

A reading only exists with fields in range, so `DateTime` carries that as a
field. Two texts of a reading matter here, and both are fixed-width:

* `storageText`, `YYYY-MM-DD HH:MM:SS.ffffff`, is how SQLAlchemy's SQLite dialect
  stores a reading; it orders as the reading does (`storageText_lt`);
* `isoformat` puts a `T` between the date and the time. As a space precedes `T`,
  an isoformat text compares with a stored text by date alone
  (`isoformat_lt_storageText`).
-/

open Decimal

/-- The days of a month. -/
def daysInMonth (year month : ℕ) : ℕ :=
  if month = 2 then
    if year % 4 = 0 ∧ (year % 100 ≠ 0 ∨ year % 400 = 0) then 29 else 28
  else if month = 4 ∨ month = 6 ∨ month = 9 ∨ month = 11 then 30
  else 31

/-- The ranges `datetime.__new__` checks. -/
def DateTime.Valid (year month day hour minute second microsecond : ℕ) : Prop :=
  (1 ≤ year ∧ year ≤ 9999) ∧ (1 ≤ month ∧ month ≤ 12) ∧
    (1 ≤ day ∧ day ≤ daysInMonth year month) ∧
    hour < 24 ∧ minute < 60 ∧ second < 60 ∧ microsecond < 1000000

instance (year month day hour minute second microsecond : ℕ) :
    Decidable (DateTime.Valid year month day hour minute second microsecond) :=
  inferInstanceAs (Decidable (_ ∧ _))

/-- A naive `datetime`. -/
@[ext] structure DateTime where
  year : ℕ
  month : ℕ
  day : ℕ
  hour : ℕ
  minute : ℕ
  second : ℕ
  microsecond : ℕ
  valid : DateTime.Valid year month day hour minute second microsecond
  deriving DecidableEq

namespace DateTime

theorem daysInMonth_le (year month : ℕ) : daysInMonth year month ≤ 31 := by
  unfold daysInMonth
  split_ifs <;> omega

/-- The date of a reading. -/
def date (d : DateTime) : List ℕ := [d.year, d.month, d.day]

/-- The time of day of a reading. -/
def time (d : DateTime) : List ℕ := [d.hour, d.minute, d.second, d.microsecond]

/-- The fields of a reading, most significant first. -/
def fields (d : DateTime) : List ℕ := d.date ++ d.time

/-! ### Texts -/

/-- `%Y-%m-%d`. -/
def dateFormat : Format := [(4, ['-']), (2, ['-']), (2, [])]

/-- `%H:%M:%S.%f`. -/
def timeFormat : Format := [(2, [':']), (2, [':']), (2, ['.']), (6, [])]

/-- `%H:%M:%S`. -/
def secondsFormat : Format := [(2, [':']), (2, [':']), (2, [])]

theorem date_fits (d : DateTime) : Fits dateFormat d.date := by
  obtain ⟨hy, hm, hd, -⟩ := d.valid
  have := daysInMonth_le d.year d.month
  refine ⟨by omega, by omega, by omega, trivial⟩

theorem time_fits (d : DateTime) : Fits timeFormat d.time := by
  obtain ⟨-, -, -, hh, hmi, hs, hus⟩ := d.valid
  exact ⟨by omega, by omega, by omega, by omega, trivial⟩

def dateText (d : DateTime) : List Char := render dateFormat d.date

/-- The text a reading is stored as. -/
def storageText (d : DateTime) : List Char := d.dateText ++ ' ' :: render timeFormat d.time

/-- The time of day as `isoformat` writes it: microseconds only when there are any. -/
def isoTime (d : DateTime) : List Char :=
  if d.microsecond = 0 then render secondsFormat [d.hour, d.minute, d.second]
  else render timeFormat d.time

/-- `datetime.isoformat()` of a naive value. -/
def isoformat (d : DateTime) : List Char := d.dateText ++ 'T' :: d.isoTime

theorem dateText_length (a b : DateTime) : a.dateText.length = b.dateText.length :=
  render_length a.date_fits b.date_fits

theorem dateText_lt {a b : DateTime} : a.dateText < b.dateText ↔ a.date < b.date :=
  render_lt_render a.date_fits b.date_fits

theorem dateText_inj {a b : DateTime} : a.dateText = b.dateText ↔ a.date = b.date :=
  render_inj a.date_fits b.date_fits

/-- **Stored texts order as the readings they show.** -/
theorem storageText_lt {a b : DateTime} : a.storageText < b.storageText ↔ a.fields < b.fields := by
  have hdates : a.date.length = b.date.length := rfl
  rw [storageText, storageText, fields, fields, append_lt_append (dateText_length a b),
    append_lt_append hdates, dateText_lt, dateText_inj, List.cons_lt_cons_iff,
    render_lt_render a.time_fits b.time_fits]
  simp

theorem storageText_lt_of_date {a b : DateTime} (h : a.date < b.date) :
    a.storageText < b.storageText := by
  have hdates : a.date.length = b.date.length := rfl
  rw [storageText_lt, fields, fields, append_lt_append hdates]
  exact Or.inl h

theorem isoformat_lt_storageText {a b : DateTime} :
    a.isoformat < b.storageText ↔ a.date < b.date := by
  rw [storageText, isoformat, append_lt_append (dateText_length a b), dateText_lt, dateText_inj,
    List.cons_lt_cons_iff]
  have hspace : ¬ (('T' : Char) < ' ') := by decide
  simp [hspace]

theorem isoformat_ne_storageText (a b : DateTime) : a.isoformat ≠ b.storageText := by
  intro h
  have hdrop := congrArg (List.drop b.dateText.length) h
  rw [storageText, isoformat, ← dateText_length a b, List.drop_left, dateText_length a b,
    List.drop_left] at hdrop
  simp at hdrop

end DateTime
