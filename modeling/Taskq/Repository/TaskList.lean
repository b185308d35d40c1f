import Mathlib.Data.List.Sort
import Taskq.Lib.Base64
import Taskq.Lib.Json
import Taskq.Lib.Keyset
import Taskq.Lib.Sqlite
import Taskq.Models

/-!
# Taskq.Repository.TaskList

`TaskRepository.list` and its cursor (`repository/tasks.py`).

A page is the first `limit` rows, in `(created_at, id)` order, of what the filters
leave; the cursor of the last row goes out when there are more. Coming back, the
cursor is decoded and its `created_at` and `id` are bound to

    created_at > ? OR (created_at = ? AND id > ?)

as they are: whatever JSON values the token holds. A column is stored with a space
between date and time, a cursor's own timestamp has a `T` there, and the comparison
is one of texts. So a cursor the repository made selects the rows of later *days*
(`behind_cursor`), not the rows behind its own.

How SQLite writes a floating-point number as text is a parameter, `realText`; only a
forged cursor ever asks.
-/

namespace Taskq.TaskList

open Decimal Unicode

/-! ### The cursor -/

/-- What `TaskRepository.list` can raise. -/
inductive ListError
  /-- `ValueError`: the limit is above 200. -/
  | limit
  /-- `AttributeError`: the decoded cursor is no object. -/
  | attribute
  /-- `ArgumentError`: `>` does not take `True`. -/
  | argument
  /-- `UnicodeEncodeError`: a surrogate in a bound text. -/
  | unicodeEncode
  /-- `OverflowError`: an integer of more than 64 bits. -/
  | overflow
  /-- `StatementError`: `DateTime` takes no list and no object for a `created_at`. -/
  | statement
  /-- The driver takes no list and no object for an `id`. -/
  | bind
  deriving DecidableEq, Repr

def createdAtKey : PyStr := PyStr.ofChars ['c', 'r', 'e', 'a', 't', 'e', 'd', '_', 'a', 't']

def idKey : PyStr := PyStr.ofChars ['i', 'd']

/-- `_encode_cursor({"created_at": createdAt, "id": id})`. -/
def encodeCursor (createdAt id : PyStr) : Except ListError PyStr :=
  match encode? (PyStr.ofChars (Json.dumps [(createdAtKey, createdAt), (idKey, id)])) with
  | none => .error .unicodeEncode
  | some raw => .ok (PyStr.ofChars (Base64.stripPadding (Base64.encode raw)))

/-- `_decode_cursor`; `none` when the token cannot be parsed. -/
def decodeCursor (token : PyStr) : Option Json.Value := do
  let raw ← Base64.decode? (token ++ PyStr.ofChars (Base64.padding token.length))
  Json.loads? (← decode? raw)

/-- The token of a payload. -/
def cursorToken (createdAt id : PyStr) : PyStr :=
  PyStr.ofChars (Base64.bare
    ((Json.dumps [(createdAtKey, createdAt), (idKey, id)]).map fun c => byte c.toNat))

/-- A payload always has a token: the encoder writes ASCII. -/
theorem encodeCursor_eq (createdAt id : PyStr) :
    encodeCursor createdAt id = .ok (cursorToken createdAt id) := by
  rw [encodeCursor, encode?_ascii (Json.dumps_ascii _)]
  simp only [Base64.stripPadding_encode]
  rfl

/-- What decoding a cursor gives: the payload, each string as JSON reads it back. -/
theorem decodeCursor_cursorToken_eq (createdAt id : PyStr) :
    decodeCursor (cursorToken createdAt id) = some (.obj
      [(createdAtKey, .str (Json.reread createdAt)), (idKey, .str (Json.reread id))]) := by
  have hcreated : Json.reread createdAtKey = createdAtKey := Json.stable_ofChars _
  have hid : Json.reread idKey = idKey := Json.stable_ofChars _
  have hne : [(createdAtKey, createdAt), (idKey, id)] ≠ [] := by simp
  have hload := Json.loads?_dumps_eq hne
  simp only [Json.rereadMembers, Json.strMembers, List.map_cons, List.map_nil, hcreated, hid]
    at hload
  rw [decodeCursor, cursorToken, PyStr.ofChars, List.length_map]
  rw [← PyStr.ofChars, Base64.decode?_bare]
  simp only [Option.bind_eq_bind, Option.bind_some, decode?_ascii (Json.dumps_ascii _), hload]

/-- **Decoding a cursor gives the payload back.** -/
theorem decodeCursor_cursorToken {createdAt id : PyStr} (hcreated : Json.Stable createdAt)
    (hid : Json.Stable id) :
    decodeCursor (cursorToken createdAt id)
      = some (.obj [(createdAtKey, .str createdAt), (idKey, .str id)]) := by
  have hcreated' : Json.reread createdAt = createdAt := hcreated
  have hid' : Json.reread id = id := hid
  rw [decodeCursor_cursorToken_eq, hcreated', hid']

/-! ### The position it stands for -/

/-- A value bound to a statement. -/
inductive Bound
  | null
  | integer (n : ℤ)
  | real (x : Json.Float)
  | text (cs : List Char)

/-- A decoded value as the driver binds it. -/
def bindValue : Json.Value → Except ListError Bound
  | .null => .ok .null
  | .bool _ => .error .argument
  | .int n => if -2 ^ 63 ≤ n ∧ n < 2 ^ 63 then .ok (.integer n) else .error .overflow
  | .float .nan => .ok .null
  | .float x => .ok (.real x)
  | .str s =>
      match s.chars? with
      | none => .error .unicodeEncode
      | some cs => .ok (.text cs)
  | .arr _ => .error .bind
  | .obj _ => .error .bind

/-- One for `created_at`: SQLAlchemy gives a list or an object the type of the column, and refuses
it before the driver sees the statement. -/
def bindCreatedAt : Json.Value → Except ListError Bound
  | .arr _ => .error .statement
  | .obj _ => .error .statement
  | v => bindValue v

def isBool : Json.Value → Bool
  | .bool _ => true
  | _ => false

/-- The two arguments of the predicate. -/
structure Position where
  createdAt : Bound
  lastId : Bound

/-- Bind both; `>` refuses `True` while the statement is built, before anything is
bound. -/
def bindPosition (createdAt lastId : Json.Value) : Except ListError Position :=
  if isBool createdAt ∨ isBool lastId then .error .argument
  else do
    let createdAt ← bindCreatedAt createdAt
    let lastId ← bindValue lastId
    return { createdAt, lastId }

/-- Where a decoded cursor says to go on. -/
def seek : Json.Value → Except ListError (Option Position)
  | .obj members =>
      let createdAt := Json.get members createdAtKey
      let lastId := Json.get members idKey
      if createdAt.truthy ∧ lastId.truthy then some <$> bindPosition createdAt lastId
      else .ok none
  | _ => .error .attribute

/-- Where a cursor says to go on; `none` is from the start. -/
def position (cursor : Option PyStr) : Except ListError (Option Position) :=
  match (cursor.filter (· ≠ [])).bind decodeCursor with
  | none => .ok none
  | some decoded => if decoded.truthy then seek decoded else .ok none

variable (realText : Json.Float → List Char)

/-- `created_at > ?`: a bound number, or a text that reads as one, precedes every
timestamp. -/
def createdAfter (d : DateTime) : Bound → Bool
  | .null => false
  | .integer _ => true
  | .real _ => true
  | .text cs => Sqlite.looksNumeric cs || decide (cs < d.storageText)

/-- `created_at = ?`. -/
def createdEq (d : DateTime) : Bound → Bool
  | .text cs => cs = d.storageText
  | _ => false

/-- `id > ?`: a bound number is compared as its text. -/
def idAfter (id : String) : Bound → Bool
  | .null => false
  | .integer n => (toString n).toList < id.toList
  | .real x => realText x < id.toList
  | .text cs => cs < id.toList

/-- The rows behind a position. -/
def behind (p : Option Position) (t : Task) : Bool :=
  match p with
  | none => true
  | some p =>
      createdAfter t.createdAt p.createdAt
        || (createdEq t.createdAt p.createdAt && idAfter realText t.id p.lastId)

/-! ### The page -/

def hasStatus (status : Option String) (t : Task) : Bool := status.all (· = t.status)

/-- `ORDER BY created_at ASC, id ASC`. -/
def OrderedBefore (a b : Task) : Prop :=
  a.createdAt.storageText < b.createdAt.storageText ∨
    a.createdAt.storageText = b.createdAt.storageText ∧ ¬ b.id.toList < a.id.toList

instance : DecidableRel OrderedBefore := fun a b =>
  inferInstanceAs (Decidable (a.createdAt.storageText < b.createdAt.storageText ∨
    a.createdAt.storageText = b.createdAt.storageText ∧ ¬ b.id.toList < a.id.toList))

/-- What the API shows of a task. -/
structure TaskDict where
  id : String
  name : String
  command : String
  status : String
  createdAt : List Char
  deriving DecidableEq

/-- `_task_to_dict`. -/
def taskToDict (t : Task) : TaskDict where
  id := t.id
  name := t.name
  command := t.command
  status := t.status
  createdAt := t.createdAt.isoformat

/-- The rows a statement selects, before `LIMIT`. -/
def select (db : Database) (status : Option String) (p : Option Position) : List Task :=
  ((db.tasks.filter (hasStatus status)).filter (behind realText p)).insertionSort OrderedBefore

/-- The cursor behind a page: that of its last row, when there are more. -/
def nextCursor (hasMore : Prop) [Decidable hasMore] (page : List Task) :
    Except ListError (Option PyStr) :=
  match page.getLast? with
  | none => .ok none
  | some last =>
      if hasMore then
        some <$> encodeCursor (PyStr.ofChars last.createdAt.isoformat) (PyStr.ofString last.id)
      else .ok none

/-- `TaskRepository.list`. -/
def list (db : Database) (limit : ℤ) (cursor : Option PyStr) (status : Option String) :
    Except ListError (List TaskDict × Option PyStr) :=
  let limit := if limit < 1 then 1 else limit
  if limit > 200 then .error .limit
  else do
    let p ← position cursor
    let rows := (select realText db status p).take (limit.toNat + 1)
    let page := rows.take limit.toNat
    let next ← nextCursor (limit.toNat < rows.length) page
    return (page.map taskToDict, next)

/-! ### The order of the rows -/

theorem orderedBefore_total (a b : Task) : OrderedBefore a b ∨ OrderedBefore b a := by
  unfold OrderedBefore
  by_cases hab : a.createdAt.storageText < b.createdAt.storageText
  · exact Or.inl (Or.inl hab)
  by_cases hba : b.createdAt.storageText < a.createdAt.storageText
  · exact Or.inr (Or.inl hba)
  have heq : a.createdAt.storageText = b.createdAt.storageText := List.le_antisymm hba hab
  by_cases hid : b.id.toList < a.id.toList
  · exact Or.inr (Or.inr ⟨heq.symm, fun h => List.lt_irrefl _ (List.lt_trans hid h)⟩)
  · exact Or.inl (Or.inr ⟨heq, hid⟩)

theorem orderedBefore_trans {a b c : Task} (hab : OrderedBefore a b) (hbc : OrderedBefore b c) :
    OrderedBefore a c := by
  unfold OrderedBefore at hab hbc ⊢
  rcases hab with hab | ⟨hab, hid⟩
  · rcases hbc with hbc | ⟨hbc, -⟩
    · exact Or.inl (List.lt_trans hab hbc)
    · exact Or.inl (hbc ▸ hab)
  · rw [hab]
    rcases hbc with hbc | ⟨hbc, hid'⟩
    · exact Or.inl hbc
    · exact Or.inr ⟨hbc, fun h => hid (List.lt_of_le_of_lt (List.not_lt.mp hid') h)⟩

instance : Std.Total OrderedBefore := ⟨orderedBefore_total⟩

instance : IsTrans Task OrderedBefore := ⟨fun _ _ _ => orderedBefore_trans⟩

/-- Rows that sort before each other have the same id. -/
theorem orderedBefore_antisymm {a b : Task} (hab : OrderedBefore a b) (hba : OrderedBefore b a) :
    a.id = b.id := by
  unfold OrderedBefore at hab hba
  rcases hab with hab | ⟨hab, hid⟩
  · rcases hba with hba | ⟨hba, -⟩
    · exact absurd (List.lt_trans hab hba) (List.lt_irrefl _)
    · rw [hba] at hab
      exact absurd hab (List.lt_irrefl _)
  · rcases hba with hba | ⟨-, hid'⟩
    · rw [hab] at hba
      exact absurd hba (List.lt_irrefl _)
    · exact String.toList_inj.mp (List.le_antisymm hid hid')

/-- No row is on an earlier day than one before it. -/
theorem OrderedBefore.date {a b : Task} (h : OrderedBefore a b) :
    ¬ b.createdAt.date < a.createdAt.date := by
  intro hlt
  have hstored := DateTime.storageText_lt_of_date hlt
  rcases h with h | ⟨h, -⟩
  · exact List.lt_irrefl _ (List.lt_trans h hstored)
  · rw [h] at hstored
    exact List.lt_irrefl _ hstored

/-- The matching tasks, in `(created_at, id)` order. -/
def matching (db : Database) (status : Option String) : List Task :=
  (db.tasks.filter (hasStatus status)).insertionSort OrderedBefore

theorem matching_perm (db : Database) (status : Option String) :
    (matching db status).Perm (db.tasks.filter (hasStatus status)) :=
  List.perm_insertionSort _ _

theorem matching_pairwise (db : Database) (status : Option String) :
    (matching db status).Pairwise OrderedBefore :=
  List.pairwise_insertionSort _ _

theorem nodup_tasks (db : Database) : db.tasks.Nodup := List.Nodup.of_map _ db.task_ids

theorem matching_nodup (db : Database) (status : Option String) : (matching db status).Nodup :=
  (matching_perm db status).nodup_iff.mpr ((nodup_tasks db).filter _)

theorem mem_tasks_of_matching {db : Database} {status : Option String} {t : Task}
    (h : t ∈ matching db status) : t ∈ db.tasks :=
  List.mem_of_mem_filter ((matching_perm db status).mem_iff.mp h)

/-- Filtering the sorted rows is sorting the filtered ones. -/
theorem select_eq_filter (db : Database) (status : Option String) (p : Option Position) :
    select realText db status p = (matching db status).filter (behind realText p) := by
  have hperm : (select realText db status p).Perm
      ((matching db status).filter (behind realText p)) :=
    (List.perm_insertionSort _ _).trans ((matching_perm db status).symm.filter _)
  -- two sorted lists of the same rows are one, the order being total
  refine hperm.eq_of_pairwise ?_ (List.pairwise_insertionSort _ _)
    ((matching_pairwise db status).filter _)
  intro a b ha hb hab hba
  have hbmem : b ∈ matching db status := List.mem_of_mem_filter hb
  have hamem : a ∈ matching db status := List.mem_of_mem_filter (hperm.mem_iff.mp ha)
  exact List.inj_on_of_nodup_map db.task_ids (mem_tasks_of_matching hamem)
    (mem_tasks_of_matching hbmem) (orderedBefore_antisymm hab hba)

/-! ### Where the repository's own cursors lead -/

/-- The cursor of a row. -/
def cursorFor (t : Task) : PyStr :=
  cursorToken (PyStr.ofChars t.createdAt.isoformat) (PyStr.ofString t.id)

theorem cursorToken_ne_nil (createdAt id : PyStr) : cursorToken createdAt id ≠ [] := by
  have hbytes : (Json.dumps [(createdAtKey, createdAt), (idKey, id)]).map
      (fun c => byte c.toNat) ≠ [] := by
    simp [Json.dumps]
  rw [cursorToken, PyStr.ofChars, Ne, List.map_eq_nil_iff]
  exact Base64.bare_ne_nil hbytes

/-- The position of a row's cursor. -/
theorem position_cursorFor (t : Task) :
    position (some (cursorFor t)) = .ok (if t.id = "" then none
      else some ⟨.text t.createdAt.isoformat, .text t.id.toList⟩) := by
  have hdecode : decodeCursor (cursorFor t) = _ :=
    decodeCursor_cursorToken (Json.stable_ofChars t.createdAt.isoformat)
      (Json.stable_ofChars t.id.toList)
  have hkeys : createdAtKey ≠ idKey := fun h => by simpa using PyStr.ofChars_injective h
  have hcreated : PyStr.ofChars t.createdAt.isoformat ≠ [] := by
    simp [PyStr.ofChars, DateTime.isoformat]
  have hcursor : (some (cursorFor t)).filter (· ≠ []) = some (cursorFor t) := by
    have hne : cursorFor t ≠ [] := cursorToken_ne_nil _ _
    rw [Option.filter_some, if_pos (decide_eq_true hne)]
  have hgetCreated : Json.get [(createdAtKey, .str (PyStr.ofChars t.createdAt.isoformat)),
      (idKey, .str (PyStr.ofString t.id))] createdAtKey
        = .str (PyStr.ofChars t.createdAt.isoformat) := by
    simp [Json.get, List.lookup_cons, beq_eq_false_iff_ne.mpr hkeys]
  have hgetId : Json.get [(createdAtKey, .str (PyStr.ofChars t.createdAt.isoformat)),
      (idKey, .str (PyStr.ofString t.id))] idKey = .str (PyStr.ofString t.id) := by
    simp [Json.get]
  rw [position, hcursor, Option.bind_some, hdecode]
  show (if true = true then seek _ else _) = _
  rw [if_pos rfl, seek, hgetCreated, hgetId]
  -- `if created_at and last_id`: an empty id drops the cursor
  by_cases hempty : t.id = ""
  · simp [Json.Value.truthy, hempty]
  · simp [Json.Value.truthy, hcreated, hempty, bindPosition, isBool, bindCreatedAt, bindValue,
      PyStr.chars?_ofChars, PyStr.chars?_ofString]
    rfl

theorem looksNumeric_isoformat (d : DateTime) : Sqlite.looksNumeric d.isoformat = false := by
  have hdigits : ∀ c ∈ padded 4 d.year, c.isDigit := by
    intro c hc
    obtain ⟨m, rfl⟩ := mem_padded hc
    exact forall_digit (P := fun c => c.isDigit) (by decide) m
  obtain ⟨rest, htext⟩ : ∃ rest, d.isoformat = padded 4 d.year ++ '-' :: rest := by
    simp [DateTime.isoformat, DateTime.dateText, DateTime.dateFormat, DateTime.date, render]
  obtain ⟨c, cs, hyear⟩ := List.exists_cons_of_ne_nil (padded_ne_nil four_ne_zero d.year)
  rw [hyear] at hdigits htext
  obtain ⟨hc, hcs⟩ := List.forall_mem_cons.mp hdigits
  rw [htext]
  exact Sqlite.looksNumeric_hyphen hc hcs rest

/-- **A row's own cursor selects the rows of later days.** -/
theorem behind_cursor (r t : Task) :
    behind realText (some ⟨.text r.createdAt.isoformat, .text r.id.toList⟩) t
      = decide (r.createdAt.date < t.createdAt.date) := by
  simp [behind, createdAfter, createdEq, looksNumeric_isoformat,
    DateTime.isoformat_lt_storageText, DateTime.isoformat_ne_storageText]

/-- The rows selected behind a row, or from the start. -/
def selection (db : Database) (status : Option String) : Option Task → List Task
  | none => matching db status
  | some r =>
      if r.id = "" then matching db status
      else (matching db status).filter fun t => r.createdAt.date < t.createdAt.date

/-! ### One page -/

/-- The last row of a page, when rows are left behind it. -/
def boundary? (limit : ℕ) (rows : List Task) : Option Task :=
  if limit < rows.length then rows[limit - 1]? else none

theorem boundary?_eq_none {limit : ℕ} {rows : List Task} (hlimit : 0 < limit) :
    boundary? limit rows = none ↔ rows.length ≤ limit := by
  rw [boundary?]
  split_ifs with h
  · rw [List.getElem?_eq_none_iff]
    omega
  · simpa using h

theorem boundary?_eq_some {limit : ℕ} {rows : List Task} {last : Task} :
    boundary? limit rows = some last ↔ limit < rows.length ∧ rows[limit - 1]? = some last := by
  rw [boundary?]
  split_ifs with h
  · simp [h]
  · simp [h]

theorem nextCursor_take {limit : ℕ} {rows : List Task} (hlimit : 0 < limit) :
    nextCursor (limit < (rows.take (limit + 1)).length) ((rows.take (limit + 1)).take limit)
      = .ok ((boundary? limit rows).map cursorFor) := by
  have hpage : (rows.take (limit + 1)).take limit = rows.take limit := by
    rw [List.take_take, Nat.min_eq_left (Nat.le_succ limit)]
  have hmore : limit < (rows.take (limit + 1)).length ↔ limit < rows.length := by
    rw [List.length_take]
    omega
  rw [hpage]
  simp only [nextCursor, boundary?, hmore, encodeCursor_eq]
  by_cases h : limit < rows.length
  · obtain ⟨last, hlast⟩ : ∃ last, rows[limit - 1]? = some last :=
      ⟨_, List.getElem?_eq_getElem (by omega)⟩
    have hend : (rows.take limit).getLast? = some last := by
      rw [List.getLast?_take, if_neg hlimit.ne', hlast, Option.some_or]
    simp only [hend, if_pos h, hlast]
    rfl
  · simp only [if_neg h]
    cases (rows.take limit).getLast? <;> rfl

/-- The page behind a position. -/
theorem list_of_position {db : Database} {limit : ℤ} {cursor : Option PyStr}
    {status : Option String} {p : Option Position} (hlow : 1 ≤ limit) (hhigh : limit ≤ 200)
    (hp : position cursor = .ok p) :
    list realText db limit cursor status =
      .ok (((select realText db status p).take limit.toNat).map taskToDict,
        (boundary? limit.toNat (select realText db status p)).map cursorFor) := by
  have hpage : ((select realText db status p).take (limit.toNat + 1)).take limit.toNat
      = (select realText db status p).take limit.toNat := by
    rw [List.take_take, Nat.min_eq_left (Nat.le_succ _)]
  unfold list
  simp only [if_neg (not_lt.mpr hlow), if_neg (not_lt.mpr hhigh), hp]
  show (nextCursor _ _ >>= _) = _
  rw [nextCursor_take (by omega), hpage]
  rfl

/-- The page behind a row, or from the start. -/
theorem list_cursorFor {db : Database} {limit : ℤ} {status : Option String} (hlow : 1 ≤ limit)
    (hhigh : limit ≤ 200) (c : Option Task) :
    list realText db limit (c.map cursorFor) status =
      .ok (((selection db status c).take limit.toNat).map taskToDict,
        (boundary? limit.toNat (selection db status c)).map cursorFor) := by
  cases c with
  | none =>
      have hselect : select realText db status none = selection db status none := by
        simp [select_eq_filter, behind, selection]
      rw [← hselect]
      exact list_of_position realText hlow hhigh rfl
  | some r =>
      have hselect : select realText db status (if r.id = "" then none
          else some ⟨.text r.createdAt.isoformat, .text r.id.toList⟩)
            = selection db status (some r) := by
        rw [select_eq_filter, selection]
        split_ifs
        · simp [behind]
        · exact List.filter_congr fun t _ => behind_cursor realText r t
      rw [← hselect]
      exact list_of_position realText hlow hhigh (position_cursorFor r)

/-! ### The whole traversal -/

/-- Feeding each `next_cursor` back in, until it is `None`, and the rows shown. -/
inductive Traversal (fetch : Option PyStr → Except ListError (List TaskDict × Option PyStr)) :
    Option PyStr → List TaskDict → Prop
  | last {cursor page} (h : fetch cursor = .ok (page, none)) : Traversal fetch cursor page
  | more {cursor page token rest} (h : fetch cursor = .ok (page, some token))
      (hrest : Traversal fetch (some token) rest) : Traversal fetch cursor (page ++ rest)

theorem taskToDict_injective : Function.Injective taskToDict := by
  intro a b h
  have hcreated : a.createdAt = b.createdAt :=
    IsoFormat.isoformat_injective (congrArg TaskDict.createdAt h)
  have hid : a.id = b.id := congrArg TaskDict.id h
  have hname : a.name = b.name := congrArg TaskDict.name h
  have hcommand : a.command = b.command := congrArg TaskDict.command h
  have hstatus : a.status = b.status := congrArg TaskDict.status h
  cases a
  cases b
  simp_all

/-- Traversing the pages is walking the selections. -/
theorem traversal_iff_walk {db : Database} {limit : ℤ} {status : Option String}
    (hlow : 1 ≤ limit) (hhigh : limit ≤ 200) (c : Option Task) (rows : List Task) :
    Traversal (fun cursor => list realText db limit cursor status) (c.map cursorFor)
        (rows.map taskToDict) ↔
      Keyset.Walk limit.toNat (selection db status) c rows := by
  have hlimit : 0 < limit.toNat := by omega
  have hfetch := @list_cursorFor realText db limit status hlow hhigh
  refine ⟨?_, ?_⟩
  · intro h
    -- by induction on the pages; the cursor fed in is always that of a row
    generalize hcursor : c.map cursorFor = cursor at h
    generalize hout : rows.map taskToDict = out at h
    induction h generalizing c rows with
    | last hok =>
        rw [← hcursor, ← hout, hfetch c, Except.ok.injEq, Prod.mk.injEq, Option.map_eq_none_iff,
          boundary?_eq_none hlimit] at hok
        obtain ⟨hpage, hshort⟩ := hok
        have hrows := List.map_injective_iff.mpr taskToDict_injective hpage
        rw [List.take_of_length_le hshort] at hrows
        rw [← hrows]
        exact Keyset.Walk.stop hshort
    | more hok hrest ih =>
        rw [← hcursor, hfetch c, Except.ok.injEq, Prod.mk.injEq, Option.map_eq_some_iff] at hok
        obtain ⟨hpage, last, hboundary, htoken⟩ := hok
        obtain ⟨hlong, hlast⟩ := boundary?_eq_some.mp hboundary
        rw [← hpage] at hout
        obtain ⟨page, others, rfl, hpageRows, hothers⟩ := List.map_eq_append_iff.mp hout
        have hrows := List.map_injective_iff.mpr taskToDict_injective hpageRows
        rw [hrows]
        exact Keyset.Walk.more hlong hlast (ih (some last) others (congrArg some htoken) hothers)
  · intro h
    induction h with
    | @stop c hlen =>
        have hok := hfetch c
        rw [(boundary?_eq_none hlimit).mpr hlen, List.take_of_length_le hlen] at hok
        exact Traversal.last hok
    | @more c last rest hlen hlast hrest ih =>
        have hok := hfetch c
        rw [boundary?_eq_some.mpr ⟨hlen, hlast⟩] at hok
        rw [List.map_append]
        exact Traversal.more hok ih

/-! ### What a traversal shows -/

/-- At every page boundary the next task is of a later day, and the id of the boundary
task is not empty. -/
def DaysApart (limit : ℕ) (rows : List Task) : Prop :=
  ∀ k, 0 < k → ∀ r s, rows[k * limit - 1]? = some r → rows[k * limit]? = some s →
    r.id ≠ "" ∧ r.createdAt.date < s.createdAt.date

/-- Down the sorted rows, a later day stays later. -/
theorem matching_later (db : Database) (status : Option String) (r : Task) :
    (matching db status).Pairwise fun a b =>
      decide (r.createdAt.date < a.createdAt.date) →
        decide (r.createdAt.date < b.createdAt.date) := by
  -- the order is by `created_at` first, so days do not go back
  refine (matching_pairwise db status).imp fun {a b} hab hra => ?_
  rw [decide_eq_true_eq] at hra ⊢
  by_contra hnot
  exact hab.date (List.lt_of_le_of_lt (List.not_lt.mp hnot) hra)

theorem selection_eq_drop (db : Database) (status : Option String) (r : Task) :
    ∃ m, selection db status (some r) = (matching db status).drop m := by
  rw [selection]
  split_ifs
  · exact ⟨0, rfl⟩
  · exact Keyset.exists_filter_eq_drop (matching_later db status r)

/-- When a boundary row's selection resumes behind it. -/
theorem selection_resumes_iff {db : Database} {status : Option String} {j : ℕ} {r s : Task}
    (hr : (matching db status)[j]? = some r) (hs : (matching db status)[j + 1]? = some s) :
    selection db status (some r) = (matching db status).drop (j + 1) ↔
      r.id ≠ "" ∧ r.createdAt.date < s.createdAt.date := by
  obtain ⟨hj, hrow⟩ := List.getElem?_eq_some_iff.mp hr
  obtain ⟨hj', hnext⟩ := List.getElem?_eq_some_iff.mp hs
  rw [selection]
  split_ifs with hid
  · refine iff_of_false ?_ (fun h => h.1 hid)
    intro hall
    have hlen := congrArg List.length hall
    rw [List.length_drop] at hlen
    omega
  · have hself : decide (r.createdAt.date < ((matching db status)[j]).createdAt.date) = false := by
      rw [hrow]
      exact decide_eq_false (List.lt_irrefl _)
    rw [Keyset.filter_eq_drop_iff (matching_later db status r) hj' hself, hnext, decide_eq_true_eq]
    exact ⟨fun h => ⟨hid, h⟩, fun h => h.2⟩

theorem resumes_iff {db : Database} {status : Option String} {limit : ℕ} (hlimit : 0 < limit) :
    Keyset.Resumes limit (selection db status) (matching db status) 0 ↔
      DaysApart limit (matching db status) := by
  have hsucc : ∀ k, 0 < k → k * limit - 1 + 1 = k * limit := by
    intro k hk
    have hpos := Nat.mul_pos hk hlimit
    omega
  refine ⟨?_, ?_⟩
  · intro h k hk r s hr hs
    have hlt := (List.getElem?_eq_some_iff.mp hs).1
    have hresume := h k hk
    rw [zero_add] at hresume
    rw [← hsucc k hk] at hs
    rw [← selection_resumes_iff hr hs, hsucc k hk]
    exact hresume hlt r hr
  · intro h k hk
    rw [zero_add]
    intro hlt r hr
    obtain ⟨s, hs⟩ : ∃ s, (matching db status)[k * limit]? = some s :=
      ⟨_, List.getElem?_eq_getElem hlt⟩
    have hapart := h k hk r s hr hs
    rw [← hsucc k hk] at hs ⊢
    exact (selection_resumes_iff hr hs).mpr hapart

/-- A traversal shows every matching task once if and only if every selection at a page
boundary resumes behind the boundary task. -/
theorem traversal_iff_resumes {db : Database} {limit : ℤ} (status : Option String)
    (hlow : 1 ≤ limit) (hhigh : limit ≤ 200) :
    Traversal (fun cursor => list realText db limit cursor status) none
        ((matching db status).map taskToDict) ↔
      Keyset.Resumes limit.toNat (selection db status) (matching db status) 0 := by
  rw [← Keyset.walk_iff (by omega) (matching_nodup db status) rfl
    fun r _ => selection_eq_drop db status r]
  exact traversal_iff_walk realText hlow hhigh none (matching db status)

/-- **Traversing the pages shows exactly the matching tasks, each once and in order, if
and only if every page boundary falls between two days** (behind a task with an id). -/
theorem list_visits_each_task_once {db : Database} {limit : ℤ} (status : Option String)
    (hlow : 1 ≤ limit) (hhigh : limit ≤ 200) :
    Traversal (fun cursor => list realText db limit cursor status) none
        ((matching db status).map taskToDict) ↔
      DaysApart limit.toNat (matching db status) := by
  rw [traversal_iff_resumes realText status hlow hhigh]
  exact resumes_iff (by omega)

/-! ### Two tasks, of one day and of two -/

/-- Noon of a day in May. -/
def noon (day : ℕ) (h : DateTime.Valid 2024 5 day 12 0 0 0) : DateTime where
  year := 2024
  month := 5
  day := day
  hour := 12
  minute := 0
  second := 0
  microsecond := 0
  valid := h

def sampleTask (id : String) (createdAt : DateTime) : Task where
  id := id
  name := id
  command := "true"
  status := "queued"
  createdAt := createdAt

def twoTasks (first second : DateTime) : Database where
  tasks := [sampleTask "a" first, sampleTask "b" second]
  results := []
  task_ids := by simp [sampleTask]
  task_names := by simp [sampleTask]
  result_ids := List.nodup_nil

def oneDay : Database := twoTasks (noon 2 (by decide)) (noon 2 (by decide))

def twoDays : Database := twoTasks (noon 2 (by decide)) (noon 3 (by decide))

theorem list_visits_each_task_once_twoDays :
    Traversal (fun cursor => list (fun _ => []) twoDays 1 cursor none) none
      ((matching twoDays none).map taskToDict) := by
  refine (list_visits_each_task_once (fun _ => []) none (by decide) (by decide)).mpr ?_
  have hrows : matching twoDays none = twoDays.tasks := by decide
  rw [hrows]
  intro k hk r s hr hs
  obtain ⟨hbound, -⟩ := List.getElem?_eq_some_iff.mp hs
  rw [Int.toNat_one, mul_one] at hbound
  have hone : k = 1 := by
    have hlen : twoDays.tasks.length = 2 := rfl
    omega
  subst hone
  cases hr
  cases hs
  decide

/-- Of two tasks of one day, pages of one show only the first. -/
theorem list_skips_task :
    ¬ Traversal (fun cursor => list (fun _ => []) oneDay 1 cursor none) none
      ((matching oneDay none).map taskToDict) := by
  rw [traversal_iff_resumes _ none (by decide) (by decide), resumes_iff (by decide)]
  intro h
  have hrows : matching oneDay none = oneDay.tasks := by decide
  rw [hrows] at h
  obtain ⟨-, hlater⟩ := h 1 one_pos _ _ rfl rfl
  exact absurd hlater (by decide)

end Taskq.TaskList
