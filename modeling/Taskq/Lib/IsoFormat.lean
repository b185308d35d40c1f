import Mathlib.Data.List.TakeWhile
import Taskq.Lib.DateTime

/-!
# Taskq.Lib.IsoFormat

Aware `datetime`s, and `datetime.fromisoformat`.

`PyDateTime` is a wall-clock reading with an optional offset from UTC. The parser
follows CPython's `fromisoformat` step by step: where the date ends is decided
first (`separatorLocation`), then the date is read in its calendar or its ISO week
form, then the time of day and the offset, both by `parseClock`. CPython's reader
looks at one character past what it has read; `leftover` is that look.
-/

open Decimal

/-- The offset of an aware `datetime` from UTC, in microseconds: strictly within a
day. -/
structure UtcOffset where
  micros : ℤ
  bounded : -86400000000 < micros ∧ micros < 86400000000
  deriving DecidableEq

namespace UtcOffset

/-- `timezone.utc`. -/
def utc : UtcOffset where
  micros := 0
  bounded := by decide

/-- `timezone(timedelta(microseconds=micros))`; `none` stands for `ValueError`. -/
def ofMicros? (micros : ℤ) : Option UtcOffset :=
  if h : -86400000000 < micros ∧ micros < 86400000000 then some ⟨micros, h⟩ else none

end UtcOffset

/-- A `datetime`: naive when `offset` is `none`, aware otherwise. -/
structure PyDateTime where
  wall : DateTime
  offset : Option UtcOffset
  deriving DecidableEq

namespace DateTime

/-! ### Days and instants -/

/-- A leap year of the Gregorian calendar. -/
def IsLeap (year : ℕ) : Prop := year % 4 = 0 ∧ (year % 100 ≠ 0 ∨ year % 400 = 0)

instance (year : ℕ) : Decidable (IsLeap year) := inferInstanceAs (Decidable (_ ∧ _))

/-- Days before January 1st of `year`. -/
def daysBeforeYear (year : ℕ) : ℕ :=
  (year - 1) * 365 + (year - 1) / 4 - (year - 1) / 100 + (year - 1) / 400

/-- Days before the first of `month` in its year. -/
def daysBeforeMonth (year month : ℕ) : ℕ :=
  ((List.range (month - 1)).map fun m => daysInMonth year (m + 1)).sum

/-- `datetime.toordinal`: January 1st of year 1 is day 1. -/
def ordinal (year month day : ℕ) : ℕ := daysBeforeYear year + daysBeforeMonth year month + day

/-- Microseconds from the start of year 1 to a reading, taken as UTC. -/
def micros (d : DateTime) : ℤ :=
  (((ordinal d.year d.month d.day * 24 + d.hour) * 60 + d.minute) * 60 + d.second) * 1000000
    + d.microsecond

/-- The month a day of the year falls in, counted on from `month`, and its day there. -/
def monthDay (year : ℕ) : ℕ → ℕ → ℕ → ℕ × ℕ
  | 0, month, day => (month, day)
  | fuel + 1, month, day =>
      if day ≤ daysInMonth year month then (month, day)
      else monthDay year fuel (month + 1) (day - daysInMonth year month)

/-- `ord_to_ymd`: the year by cycles of 400, 100, 4 and 1 years, then the month. -/
def ofOrdinal (n : ℕ) : ℕ × ℕ × ℕ :=
  let n := n - 1
  let n400 := n / 146097
  let n := n % 146097
  let n100 := n / 36524
  let n := n % 36524
  let n4 := n / 1461
  let n := n % 1461
  let n1 := n / 365
  let year := n400 * 400 + n100 * 100 + n4 * 4 + n1 + 1
  if n1 = 4 ∨ n100 = 4 then (year - 1, 12, 31)
  else
    let (month, day) := monthDay year 12 1 (n % 365 + 1)
    (year, month, day)

/-- The weekday of January 1st, Monday being 0. -/
def firstWeekday (year : ℕ) : ℕ := (ordinal year 1 1 + 6) % 7

/-- `iso_to_ymd`: the date of a day of an ISO week. -/
def ofIsoWeek? (year week day : ℕ) : Option (ℕ × ℕ × ℕ) :=
  let long := firstWeekday year = 3 ∨ (firstWeekday year = 2 ∧ IsLeap year)
  if year = 0 ∨ week = 0 ∨ 53 < week ∨ (week = 53 ∧ ¬ long) then none
  else if day = 0 ∨ 8 ≤ day then none
  else
    -- the Monday of the week that holds January 4th; it may lie in the year before
    let firstDay := ordinal year 1 1
    let monday := firstDay - firstWeekday year + (if 3 < firstWeekday year then 7 else 0)
    some (ofOrdinal (monday + (week - 1) * 7 + day - 1))

/-- `datetime(...)`; `none` stands for `ValueError`. -/
def make? (year month day hour minute second microsecond : ℕ) : Option DateTime :=
  if h : Valid year month day hour minute second microsecond then
    some { year, month, day, hour, minute, second, microsecond, valid := h }
  else none

theorem make?_self (d : DateTime) :
    make? d.year d.month d.day d.hour d.minute d.second d.microsecond = some d := by
  rw [make?, dif_pos d.valid]

end DateTime

namespace PyDateTime

/-- The instant an aware `datetime` denotes; a naive one is read as UTC. -/
def instant (d : PyDateTime) : ℤ := d.wall.micros - (d.offset.map UtcOffset.micros).getD 0

/-- The offset as `isoformat` writes it: seconds and microseconds only when there are any. -/
def offsetText (o : UtcOffset) : List Char :=
  let n := o.micros.natAbs
  let clock := [n / 3600000000, n / 60000000 % 60, n / 1000000 % 60, n % 1000000]
  (if o.micros < 0 then '-' else '+') ::
    (if n % 60000000 = 0 then render [(2, [':']), (2, [])] clock
    else if n % 1000000 = 0 then render DateTime.secondsFormat clock
    else render DateTime.timeFormat clock)

/-- `datetime.isoformat()`. -/
def isoformat (d : PyDateTime) : List Char :=
  match d.offset with
  | none => d.wall.isoformat
  | some o => d.wall.isoformat ++ offsetText o

end PyDateTime

namespace IsoFormat

/-! ### Reading -/

/-- `parse_digits`: exactly `n` decimal digits. -/
def parseDigits (n : ℕ) (cs : List Char) : Option (ℕ × List Char) :=
  if n ≤ cs.length then (value? (cs.take n)).map fun v => (v, cs.drop n) else none

/-- Something stands after what was read; a NUL counts as the end. -/
def leftover : List Char → Bool
  | [] => false
  | c :: _ => c ≠ '\x00'

/-- The fraction of a second, to the microsecond; later digits are dropped. -/
def parseFraction (cs : List Char) : Option (ℕ × Bool) := do
  let digits := min 6 cs.length
  let (v, rest) ← parseDigits digits cs
  return (v * 10 ^ (6 - digits), leftover (rest.dropWhile Char.isDigit))

/-- The loop of `parse_hh_mm_ss_ff` with `k` components left: the components read,
the microseconds, and whether something is left over. `sep` is whether a colon
stands between components, known once the first one is read. -/
def parseComponents : ℕ → Option Bool → List Char → Option (List ℕ × ℕ × Bool)
  | 0, _, cs => do
      let (us, left) ← parseFraction cs
      return ([], us, left)
  | k + 1, sep, cs => do
      let (v, rest) ← parseDigits 2 cs
      match rest with
      | c :: d :: more =>
          let sep := sep.getD (c = ':')
          if sep ∧ c = ':' then
            let (vs, us, left) ← parseComponents k (some sep) (d :: more)
            return (v :: vs, us, left)
          else if c = '.' ∨ c = ',' then
            let (us, left) ← parseFraction (d :: more)
            return ([v], us, left)
          else if sep then none
          else
            let (vs, us, left) ← parseComponents k (some sep) (c :: d :: more)
            return (v :: vs, us, left)
      | [c] =>
          -- the reader counts bytes: a character of several is more than one look
          if c.toNat < 0x80 then return ([v], 0, leftover [c]) else none
      | [] => return ([v], 0, false)

/-- A time of day: hour, minute, second, microsecond. -/
structure Clock where
  hour : ℕ
  minute : ℕ
  second : ℕ
  microsecond : ℕ
  deriving DecidableEq

/-- `parse_hh_mm_ss_ff`. -/
def parseClock (cs : List Char) : Option (Clock × Bool) := do
  let (vs, us, left) ← parseComponents 3 none cs
  return ({ hour := vs.getD 0 0, minute := vs.getD 1 0, second := vs.getD 2 0,
            microsecond := us }, left)

/-- A character that starts the offset. -/
def isZoneChar (c : Char) : Bool := c = '+' ∨ c = '-' ∨ c = 'Z'

/-- The offset an aware text ends in. A whole-second part of zero gives UTC, whatever
the microseconds. -/
def parseZone (sign : Char) (cs : List Char) : Option UtcOffset := do
  let (clock, left) ← parseClock cs
  if left then none
  else
    let seconds := clock.hour * 3600 + clock.minute * 60 + clock.second
    if seconds = 0 then return UtcOffset.utc
    else
      let micros : ℤ := seconds * 1000000 + clock.microsecond
      UtcOffset.ofMicros? (if sign = '-' then -micros else micros)

/-- `parse_isoformat_time`. -/
def parseTime (cs : List Char) : Option (Clock × Option UtcOffset) := do
  let (clock, left) ← parseClock (cs.takeWhile fun c => !isZoneChar c)
  match cs.dropWhile fun c => !isZoneChar c with
  | [] => if left then none else return (clock, none)
  | 'Z' :: rest => if leftover rest then none else return (clock, some UtcOffset.utc)
  | sign :: rest =>
      let offset ← parseZone sign rest
      return (clock, some offset)

/-- `_find_isoformat_datetime_separator`: where the date ends. -/
def separatorLocation (cs : List Char) : Option ℕ :=
  let n := cs.length
  if n = 7 then some 7
  else if cs[4]? = some '-' then
    if cs[5]? = some 'W' then
      if 8 < n ∧ cs[8]? = some '-' then
        if n = 9 then none
        else if (cs[10]?.map Char.isDigit).getD false then some 8
        else some 10
      else some 8
    else some 10
  else if cs[4]? = some 'W' then
    let pos := 7 + ((cs.drop 7).takeWhile Char.isDigit).length
    if pos < 9 then some pos
    else if pos % 2 = 0 then some 7
    else some 8
  else some 8

/-- `parse_isoformat_date`: year, month, day. -/
def parseDate (cs : List Char) : Option (ℕ × ℕ × ℕ) := do
  let (year, rest) ← parseDigits 4 cs
  let sep := rest.head? = some '-'
  match (if sep then rest.tail else rest) with
  | 'W' :: rest =>
      let (week, rest) ← parseDigits 2 rest
      match rest with
      | [] => DateTime.ofIsoWeek? year week 1
      | c :: more =>
          if sep ∧ c ≠ '-' then none
          else
            let (day, _) ← parseDigits 1 (if sep then more else c :: more)
            DateTime.ofIsoWeek? year week day
  | rest =>
      let (month, rest) ← parseDigits 2 rest
      if sep ∧ rest.head? ≠ some '-' then none
      else
        let (day, _) ← parseDigits 2 (if sep then rest.tail else rest)
        return (year, month, day)

/-- `datetime.fromisoformat`; `none` stands for `ValueError`. -/
def fromisoformat? (cs : List Char) : Option PyDateTime :=
  if cs.length < 7 then none
  else do
    let loc ← separatorLocation cs
    let (year, month, day) ← parseDate (cs.take loc)
    let (clock, offset) ←
      match cs.drop loc with
      | [] => some (⟨0, 0, 0, 0⟩, none)
      | _ :: time => parseTime time
    let wall ←
      DateTime.make? year month day clock.hour clock.minute clock.second clock.microsecond
    return { wall, offset }

/-! ### Reading back what `isoformat` writes -/

theorem parseDigits_padded {w n : ℕ} (h : n < 10 ^ w) (rest : List Char) :
    parseDigits w (padded w n ++ rest) = some (n, rest) := by
  have htake : (padded w n ++ rest).take w = padded w n := List.take_left' (padded_length w n)
  have hdrop : (padded w n ++ rest).drop w = rest := List.drop_left' (padded_length w n)
  rw [parseDigits, if_pos (by simp), htake, hdrop, value?_padded h]
  rfl

theorem parseDigits_padded_nil {w n : ℕ} (h : n < 10 ^ w) :
    parseDigits w (padded w n) = some (n, []) := by
  simpa using parseDigits_padded h []

theorem parseFraction_padded {us : ℕ} (h : us < 1000000) :
    parseFraction (padded 6 us) = some (us, false) := by
  have hread := parseDigits_padded_nil (w := 6) h
  simp [parseFraction, hread, leftover]

/-- A component with a colon after it. -/
theorem parseComponents_colon {n k : ℕ} (h : n < 100) {sep : Option Bool}
    (hsep : sep.getD true = true) {rest : List Char} (hrest : rest ≠ []) :
    parseComponents (k + 1) sep (padded 2 n ++ ':' :: rest) =
      (parseComponents k (some true) rest).map fun r => (n :: r.1, r.2.1, r.2.2) := by
  cases rest with
  | nil => exact absurd rfl hrest
  | cons d more =>
      have hcolon : sep.getD (decide True) = true := by simpa using hsep
      rw [parseComponents, parseDigits_padded h]
      simp only [Option.bind_eq_bind, Option.bind_some, hcolon, and_self, if_true]
      cases parseComponents k (some true) (d :: more) <;> rfl

/-- A component at the end of the text. -/
theorem parseComponents_last {n k : ℕ} (h : n < 100) (sep : Option Bool) :
    parseComponents (k + 1) sep (padded 2 n) = some ([n], 0, false) := by
  rw [parseComponents, parseDigits_padded_nil h]
  rfl

/-- A component with a decimal point and microseconds after it. -/
theorem parseComponents_point {n us k : ℕ} (h : n < 100) (hus : us < 1000000) :
    parseComponents (k + 1) (some true) (padded 2 n ++ '.' :: padded 6 us) =
      some ([n], us, false) := by
  have hfraction := parseFraction_padded hus
  simp only [padded, Nat.reducePow, Nat.div_one] at hfraction
  rw [parseComponents, parseDigits_padded h, padded]
  simp [padded, hfraction]

theorem parseClock_isoTime (d : DateTime) :
    parseClock d.isoTime =
      some (⟨d.hour, d.minute, d.second, d.microsecond⟩, false) := by
  obtain ⟨-, -, -, hh, hm, hs, hus⟩ := d.valid
  unfold DateTime.isoTime parseClock
  split_ifs with h
  · have htext : render DateTime.secondsFormat [d.hour, d.minute, d.second] =
        padded 2 d.hour ++ ':' :: (padded 2 d.minute ++ ':' :: padded 2 d.second) := by
      simp [render, DateTime.secondsFormat]
    rw [htext, parseComponents_colon (by omega) rfl (by simp),
      parseComponents_colon (by omega) rfl (padded_ne_nil (by decide) _),
      parseComponents_last (by omega), h]
    rfl
  · have htext : render DateTime.timeFormat d.time =
        padded 2 d.hour ++ ':' :: (padded 2 d.minute ++ ':' ::
          (padded 2 d.second ++ '.' :: padded 6 d.microsecond)) := by
      simp [render, DateTime.timeFormat, DateTime.time]
    rw [htext, parseComponents_colon (by omega) rfl (by simp),
      parseComponents_colon (by omega) rfl (by simp),
      parseComponents_point (by omega) hus]
    rfl

/-- What holds of digits and of the separators of a time holds of every character of it. -/
theorem forall_mem_isoTime {P : Char → Prop} (hdigit : ∀ m < 10, P (Nat.digitChar m))
    (hcolon : P ':') (hpoint : P '.') (d : DateTime) : ∀ c ∈ d.isoTime, P c := by
  unfold DateTime.isoTime
  split_ifs
  · exact forall_mem_render hdigit (by simp [DateTime.secondsFormat, hcolon])
  · exact forall_mem_render hdigit (by simp [DateTime.timeFormat, hcolon, hpoint])

/-- The date in front of a `T` is found and read. -/
theorem separatorLocation_isoformat (d : DateTime) (rest : List Char) :
    separatorLocation (d.dateText ++ 'T' :: rest) = some 10 := by
  have hdigit : digit (d.month / 10) ≠ 'W' :=
    forall_digit (P := fun c => c ≠ 'W') (by decide) _
  simp [separatorLocation, DateTime.dateText, DateTime.dateFormat, DateTime.date, render, padded,
    hdigit]

theorem parseDate_dateText (d : DateTime) :
    parseDate d.dateText = some (d.year, d.month, d.day) := by
  obtain ⟨hy, hm, hd, -⟩ := d.valid
  have hday := DateTime.daysInMonth_le d.year d.month
  have htext : d.dateText
      = padded 4 d.year ++ '-' :: (padded 2 d.month ++ '-' :: padded 2 d.day) := by
    simp [DateTime.dateText, DateTime.dateFormat, DateTime.date, render]
  rw [htext, parseDate, parseDigits_padded (by omega)]
  simp only [Option.bind_eq_bind, Option.bind_some, List.head?_cons, List.tail_cons, if_true]
  split
  next rest hcons =>
      -- a month does not start with `W`
      rw [padded, List.cons_append, List.cons.injEq] at hcons
      exact absurd hcons.1 (forall_digit (P := fun c => c ≠ 'W') (by decide) _)
  next =>
      have hdayText := parseDigits_padded_nil (w := 2) (n := d.day) (by omega)
      rw [parseDigits_padded (by omega)]
      simp [hdayText]

/-- No digit, colon or point starts an offset. -/
theorem isoTime_no_zone (d : DateTime) : ∀ c ∈ d.isoTime, (!isZoneChar c) = true :=
  forall_mem_isoTime (by decide) (by decide) (by decide) d

theorem parseTime_isoTime (d : DateTime) :
    parseTime d.isoTime = some (⟨d.hour, d.minute, d.second, d.microsecond⟩, none) := by
  have htake : d.isoTime.takeWhile (fun c => !isZoneChar c) = d.isoTime :=
    List.takeWhile_eq_self_iff.mpr (isoTime_no_zone d)
  have hdrop : d.isoTime.dropWhile (fun c => !isZoneChar c) = [] :=
    List.dropWhile_eq_nil_iff.mpr (isoTime_no_zone d)
  rw [parseTime, htake, hdrop, parseClock_isoTime]
  rfl

theorem parseTime_isoTime_utc (d : DateTime) :
    parseTime (d.isoTime ++ '+' :: ['0', '0', ':', '0', '0']) =
      some (⟨d.hour, d.minute, d.second, d.microsecond⟩, some UtcOffset.utc) := by
  have hzone : parseZone '+' ['0', '0', ':', '0', '0'] = some UtcOffset.utc := by decide
  have hplus : (!isZoneChar '+') = false := by decide
  have htake : (d.isoTime ++ '+' :: ['0', '0', ':', '0', '0']).takeWhile (fun c => !isZoneChar c)
      = d.isoTime := by
    rw [List.takeWhile_append_of_pos (isoTime_no_zone d), List.takeWhile_cons, hplus]
    simp
  have hdrop : (d.isoTime ++ '+' :: ['0', '0', ':', '0', '0']).dropWhile (fun c => !isZoneChar c)
      = '+' :: ['0', '0', ':', '0', '0'] := by
    rw [List.dropWhile_append_of_pos (isoTime_no_zone d), List.dropWhile_cons, hplus]
    simp
  rw [parseTime, htake, hdrop, parseClock_isoTime]
  simp [hzone]

/-- A date, a `T` and a time of day that parses make a `datetime`. -/
theorem fromisoformat?_dateText {d : DateTime} {time : List Char} {offset : Option UtcOffset}
    (h : parseTime time = some (⟨d.hour, d.minute, d.second, d.microsecond⟩, offset)) :
    fromisoformat? (d.dateText ++ 'T' :: time) = some ⟨d, offset⟩ := by
  have hlen : d.dateText.length = 10 := by
    simp [DateTime.dateText, DateTime.dateFormat, DateTime.date, render]
  have hlong : ¬ (d.dateText ++ 'T' :: time).length < 7 := by
    rw [List.length_append, hlen]
    omega
  rw [fromisoformat?, if_neg hlong, separatorLocation_isoformat]
  simp only [Option.bind_eq_bind, Option.bind_some, List.take_left' hlen, List.drop_left' hlen,
    parseDate_dateText, h, DateTime.make?_self]
  rfl

/-- **Reading back the text of a naive reading.** -/
theorem fromisoformat?_isoformat (d : DateTime) : fromisoformat? d.isoformat = some ⟨d, none⟩ :=
  fromisoformat?_dateText (parseTime_isoTime d)

theorem isoformat_injective : Function.Injective DateTime.isoformat := by
  intro a b h
  have hread := fromisoformat?_isoformat a
  rw [h, fromisoformat?_isoformat] at hread
  cases hread
  rfl

theorem isoformat_utc (d : DateTime) :
    PyDateTime.isoformat ⟨d, some UtcOffset.utc⟩ =
      d.dateText ++ 'T' :: (d.isoTime ++ '+' :: ['0', '0', ':', '0', '0']) := by
  have hoffset : PyDateTime.offsetText UtcOffset.utc = '+' :: ['0', '0', ':', '0', '0'] := by
    decide
  simp [PyDateTime.isoformat, DateTime.isoformat, hoffset]

/-- The text of a reading in UTC has no `Z`. -/
theorem isoformat_utc_no_Z (d : DateTime) :
    ∀ c ∈ PyDateTime.isoformat ⟨d, some UtcOffset.utc⟩, c ≠ 'Z' := by
  have hdigit : ∀ m < 10, Nat.digitChar m ≠ 'Z' := by decide
  have hdate : ∀ c ∈ d.dateText, c ≠ 'Z' :=
    forall_mem_render hdigit (by simp [DateTime.dateFormat])
  have htime : ∀ c ∈ d.isoTime, c ≠ 'Z' :=
    forall_mem_isoTime hdigit (by decide) (by decide) d
  rw [isoformat_utc]
  intro c hc
  simp only [List.mem_append, List.mem_cons, List.not_mem_nil, or_false] at hc
  rcases hc with hc | rfl | hc | rfl | rfl | rfl | rfl | rfl | rfl
  · exact hdate c hc
  · decide
  · exact htime c hc
  all_goals decide

/-- **Reading back the text of an aware reading in UTC.** -/
theorem fromisoformat?_isoformat_utc (d : DateTime) :
    fromisoformat? (PyDateTime.isoformat ⟨d, some UtcOffset.utc⟩)
      = some ⟨d, some UtcOffset.utc⟩ := by
  rw [isoformat_utc]
  exact fromisoformat?_dateText (parseTime_isoTime_utc d)

end IsoFormat
