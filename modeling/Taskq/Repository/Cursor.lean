import Taskq.Repository.TaskList

/-!
# Taskq.Repository.Cursor

Which cursors break the listing.

`_decode_cursor` promises a dict or `None`, but returns whatever JSON value the token
holds; `list` then calls `.get` on it, and hands the two values it finds to a
comparison and to the driver. `Harmless` says of the decoded value, and nothing else,
when all of that goes well.
-/

namespace Taskq.TaskList

open Unicode

/-- A value that `>` and the driver take: a number of at most 64 bits, or a string
without lone surrogates. -/
def Bindable : Json.Value → Prop
  | .null => True
  | .bool _ => False
  | .int n => -2 ^ 63 ≤ n ∧ n < 2 ^ 63
  | .float _ => True
  | .str s => s.chars? ≠ none
  | .arr _ => False
  | .obj _ => False

/-- A decoded cursor that the listing can use, or passes over: a false value, an object
that lacks `created_at` or `id` or has a false one, or one in which both can be bound. -/
def Usable (decoded : Json.Value) : Prop :=
  decoded.truthy = false ∨ ∃ members, decoded = .obj members ∧
    ((Json.get members createdAtKey).truthy = false ∨ (Json.get members idKey).truthy = false ∨
      Bindable (Json.get members createdAtKey) ∧ Bindable (Json.get members idKey))

/-- A cursor that does not break the listing: the empty one, one that cannot be decoded,
and one that holds a usable value. -/
def Harmless (cursor : PyStr) : Prop :=
  cursor = [] ∨ ∀ decoded, decodeCursor cursor = some decoded → Usable decoded

theorem bindValue_ok_iff {v : Json.Value} (hbool : isBool v = false) :
    (∃ b, bindValue v = .ok b) ↔ Bindable v := by
  cases v with
  | null => exact iff_of_true ⟨_, rfl⟩ trivial
  | bool b => cases hbool
  | int n =>
      simp only [bindValue, Bindable]
      split_ifs with h
      · exact iff_of_true ⟨_, rfl⟩ h
      · refine iff_of_false ?_ h
        intro hok
        obtain ⟨b, hb⟩ := hok
        cases hb
  | float x => cases x <;> exact iff_of_true ⟨_, rfl⟩ trivial
  | str s =>
      simp only [bindValue, Bindable]
      cases s.chars? with
      | none => simp
      | some cs => simp
  | arr vs => simp [bindValue, Bindable]
  | obj members => simp [bindValue, Bindable]

theorem bindCreatedAt_ok_iff {v : Json.Value} (hbool : isBool v = false) :
    (∃ b, bindCreatedAt v = .ok b) ↔ Bindable v := by
  cases v with
  | arr vs => simp [bindCreatedAt, Bindable]
  | obj members => simp [bindCreatedAt, Bindable]
  | _ => exact bindValue_ok_iff hbool

/-- Both values are bound, or the statement is not executed. -/
theorem bindPosition_ok_iff {createdAt lastId : Json.Value} :
    (∃ p, bindPosition createdAt lastId = .ok p) ↔ Bindable createdAt ∧ Bindable lastId := by
  have hnot : ∀ v : Json.Value, isBool v = true → ¬ Bindable v := by
    intro v hv
    cases v <;> simp_all [isBool, Bindable]
  unfold bindPosition
  split_ifs with h
  · refine iff_of_false ?_ ?_
    · intro hok
      obtain ⟨p, hp⟩ := hok
      cases hp
    · rintro ⟨hcreated, hid⟩
      rcases h with h | h
      · exact hnot _ h hcreated
      · exact hnot _ h hid
  · obtain ⟨hcreated, hid⟩ := not_or.mp h
    rw [← bindCreatedAt_ok_iff (Bool.eq_false_of_not_eq_true hcreated),
      ← bindValue_ok_iff (Bool.eq_false_of_not_eq_true hid)]
    cases hc : bindCreatedAt createdAt with
    | error e => simp [bind, Except.bind]
    | ok c =>
        cases hi : bindValue lastId with
        | error e => simp [bind, Except.bind]
        | ok i => simp [bind, Except.bind, pure, Except.pure]

/-- A true decoded value gives a position exactly when it is an object whose two values,
where both are true, can be bound. -/
theorem seek_ok_iff {decoded : Json.Value} :
    (∃ p, seek decoded = .ok p) ↔ ∃ members, decoded = .obj members ∧
      ((Json.get members createdAtKey).truthy = false ∨ (Json.get members idKey).truthy = false ∨
        Bindable (Json.get members createdAtKey) ∧ Bindable (Json.get members idKey)) := by
  cases decoded with
  | obj members =>
      simp only [seek, Json.Value.obj.injEq, exists_eq_left']
      split_ifs with hboth
      · obtain ⟨hcreated, hid⟩ := hboth
        rw [← bindPosition_ok_iff, hcreated, hid]
        cases bindPosition (Json.get members createdAtKey) (Json.get members idKey) with
        | error e => simp
        | ok p => simp
      · refine iff_of_true ⟨_, rfl⟩ ?_
        by_cases hcreated : (Json.get members createdAtKey).truthy = true
        · exact Or.inr (Or.inl (Bool.eq_false_of_not_eq_true fun hid => hboth ⟨hcreated, hid⟩))
        · exact Or.inl (Bool.eq_false_of_not_eq_true hcreated)
  | _ => simp [seek]

/-- The empty string is no cursor. -/
theorem position_empty : position (some []) = .ok none := by
  have hnone : ((some ([] : PyStr)).filter (· ≠ [])).bind decodeCursor = none := by simp
  simp only [position, hnone]

/-- Where a cursor that is not empty says to go on. -/
theorem position_some {cursor : PyStr} (h : cursor ≠ []) :
    position (some cursor) = match decodeCursor cursor with
      | none => .ok none
      | some decoded => if decoded.truthy then seek decoded else .ok none := by
  have hbind : ((some cursor).filter (· ≠ [])).bind decodeCursor = decodeCursor cursor := by
    rw [Option.filter_some, if_pos (decide_eq_true h), Option.bind_some]
  cases hdecoded : decodeCursor cursor with
  | none => simp only [position, hbind, hdecoded]
  | some decoded => simp only [position, hbind, hdecoded]

theorem position_ok_iff {cursor : PyStr} :
    (∃ p, position (some cursor) = .ok p) ↔ Harmless cursor := by
  by_cases hempty : cursor = []
  · rw [hempty, position_empty]
    exact iff_of_true ⟨none, rfl⟩ (Or.inl rfl)
  simp only [position_some hempty, Harmless, hempty, false_or]
  cases decodeCursor cursor with
  | none => exact iff_of_true ⟨none, rfl⟩ (by simp)
  | some decoded =>
      simp only [Option.some.injEq, forall_eq', Usable]
      by_cases htrue : decoded.truthy = true
      · rw [if_pos htrue, seek_ok_iff]
        simp [htrue]
      · rw [if_neg htrue]
        exact iff_of_true ⟨none, rfl⟩ (Or.inl (Bool.eq_false_of_not_eq_true htrue))

/-- **A cursor breaks the listing exactly when it holds an unusable value**: something
other than an object, or an object with a `created_at` and an `id` that cannot both be
bound. -/
theorem list_returns_iff (realText : Json.Float → List Char) (db : Database) {limit : ℤ}
    (hlow : 1 ≤ limit) (hhigh : limit ≤ 200) (cursor : PyStr) (status : Option String) :
    (∃ page next, list realText db limit (some cursor) status = .ok (page, next)) ↔
      Harmless cursor := by
  rw [← position_ok_iff]
  cases hp : position (some cursor) with
  | ok p => exact iff_of_true ⟨_, _, list_of_position realText hlow hhigh hp⟩ ⟨p, rfl⟩
  | error e =>
      refine iff_of_false ?_ (by simp)
      intro hok
      obtain ⟨page, next, hlist⟩ := hok
      rw [list, if_neg (not_lt.mpr hlow), if_neg (not_lt.mpr hhigh), hp] at hlist
      cases hlist

/-- The cursor `NQ`, which is `5`. -/
def fiveCursor : PyStr := PyStr.ofChars (Base64.bare [byte 53])

theorem decodeCursor_fiveCursor : decodeCursor fiveCursor = some (.int 5) := by
  have hascii : Ascii ['5'] := by simp [Ascii]
  have htext : decode? [byte 53] = some ['5'] := decode?_ascii hascii
  rw [decodeCursor, fiveCursor, PyStr.ofChars, List.length_map]
  rw [← PyStr.ofChars, Base64.decode?_bare]
  simp only [Option.bind_eq_bind, Option.bind_some, htext]
  rfl

theorem list_returns_iff_five :
    (∃ page next, list (fun _ => []) oneDay 50 (some fiveCursor) none = .ok (page, next)) ↔
      Harmless fiveCursor :=
  list_returns_iff (fun _ => []) oneDay (by decide) (by decide) fiveCursor none

/-- A cursor that holds a number breaks the listing. -/
theorem list_cursor_raises :
    ¬ ∀ (cursor : PyStr) (limit : ℤ) (status : Option String), 1 ≤ limit → limit ≤ 200 →
      ∃ page next, list (fun _ => []) oneDay limit (some cursor) status = .ok (page, next) := by
  intro h
  obtain ⟨page, next, hlist⟩ := h fiveCursor 50 none (by decide) (by decide)
  have hne : fiveCursor ≠ [] := by
    rw [fiveCursor, PyStr.ofChars, Ne, List.map_eq_nil_iff]
    exact Base64.bare_ne_nil (List.cons_ne_nil _ _)
  have hposition : position (some fiveCursor) = .error .attribute := by
    rw [position_some hne, decodeCursor_fiveCursor]
    rfl
  rw [list, if_neg (by decide), if_neg (by decide), hposition] at hlist
  cases hlist

end Taskq.TaskList
