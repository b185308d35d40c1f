import Taskq.Api.Problem
import Taskq.Api.Schemas

/-!
# Taskq.Api.Validation

How a body becomes a `TaskCreate` (`api/schemas.py`), and the list of errors it gets when
it does not.

An entry of that list echoes the input it is about, and an entry of a validator that raised
holds the exception itself. So not every list can be rendered: `entries_render_iff` says
which bodies get one that can.
-/

namespace Taskq.Http

open Unicode

/-! ### The entries -/

/-- An entry of `RequestValidationError.errors()`. -/
structure ErrorEntry where
  type : String
  loc : List Json.Value
  msg : String
  input : Content
  ctx : List (String × Content)

/-- The entry as a dict; `ctx` is there when there is something in it. -/
def ErrorEntry.toContent (e : ErrorEntry) : Content :=
  .dict ([("type", .str e.type.toList), ("loc", .value (.arr e.loc)), ("msg", .str e.msg.toList),
    ("input", e.input)] ++ if e.ctx.isEmpty then [] else [("ctx", .dict e.ctx)])

theorem ErrorEntry.renders_iff {e : ErrorEntry} :
    e.toContent.renders = true ↔ Json.writableElements e.loc = true ∧ e.input.renders = true ∧
      ∀ m ∈ e.ctx, m.2.renders = true := by
  rw [toContent, Content.renders, Content.rendersMembers_iff]
  cases hctx : e.ctx with
  | nil => simp [Content.renders, Json.writable]
  | cons m ctx => simp [Content.renders, Json.writable, Content.rendersMembers_iff]

def bodyKey : PyStr := PyStr.ofChars ['b', 'o', 'd', 'y']

def nameKey : PyStr := PyStr.ofChars ['n', 'a', 'm', 'e']

def commandKey : PyStr := PyStr.ofChars ['c', 'o', 'm', 'm', 'a', 'n', 'd']

/-- An entry about a field of the body. -/
def fieldEntry (field : PyStr) (type msg : String) (input : Json.Value)
    (ctx : List (String × Content)) : ErrorEntry where
  type := type
  loc := [.str bodyKey, .str field]
  msg := msg
  input := .value input
  ctx := ctx

/-- An entry about the body as a whole. -/
def bodyEntry (type msg : String) (input : Content) : ErrorEntry where
  type := type
  loc := [.str bodyKey]
  msg := msg
  input := input
  ctx := []

/-- What is said of a body that is not there. -/
def missingBody : ErrorEntry := bodyEntry "missing" "Field required" (.value .null)

/-- What is said of a body that is no object. -/
def notAnObject (input : Content) : ErrorEntry :=
  bodyEntry "model_attributes_type"
    "Input should be a valid dictionary or object to extract fields from" input

end Taskq.Http

namespace Taskq.TaskCreate

open Http Unicode

/-! ### Reading a body -/

/-- The value of a field: its length is checked first, then `_check_text` runs, and the
exception it raises is put into the entry. -/
def checkText (field : PyStr) (v : Json.Value) :
    Except ErrorEntry {value : String // AcceptedText value} :=
  match v with
  | .str s =>
      match s.chars? with
      | none =>
          .error (fieldEntry field "string_unicode" ("Input should be a valid string, " ++
            "unable to parse raw data as a unicode string") v [])
      | some cs =>
          let value := String.ofList cs
          if hlong : maxFieldLength < value.length then
            .error (fieldEntry field "string_too_long"
              "String should have at most 1000 characters" v
              [("max_length", .int maxFieldLength)])
          else if hshort : value.length < 1 then
            .error (fieldEntry field "string_too_short"
              "String should have at least 1 character" v [("min_length", .int 1)])
          else if hblack : ∀ c ∈ value.toList, c ∉ injectionBlacklist then
            .ok ⟨value, by omega, by omega, hblack⟩
          else
            .error (fieldEntry field "value_error"
              "Value error, contains blacklisted characters" v [("error", .object)])
  | _ => .error (fieldEntry field "string_type" "Input should be a valid string" v [])

/-- A required field of an object; without it the entry echoes the whole object. -/
def readField (members : List (PyStr × Json.Value)) (field : PyStr) :
    Except ErrorEntry {value : String // AcceptedText value} :=
  if field ∈ members.map Prod.fst then checkText field (Json.get members field)
  else .error (fieldEntry field "missing" "Field required" (.obj members) [])

/-- `extra="forbid"`: an entry for every other key, in the order of the keys. -/
def extraEntries (members : List (PyStr × Json.Value)) : List ErrorEntry :=
  ((members.map Prod.fst).eraseDups.filter (· ∉ [nameKey, commandKey])).map fun k =>
    fieldEntry k "extra_forbidden" "Extra inputs are not permitted" (Json.get members k) []

def errorsOf {α : Type} : Except ErrorEntry α → List ErrorEntry
  | .error e => [e]
  | .ok _ => []

/-- `TaskCreate`, of a decoded body. FastAPI takes `null` for no body. -/
def validate (v : Json.Value) : Except (List ErrorEntry) TaskCreate :=
  match v with
  | .null => .error [missingBody]
  | .obj members =>
      match readField members nameKey, readField members commandKey, extraEntries members with
      | .ok name, .ok command, [] =>
          .ok
            { name := name.1
              command := command.1
              name_accepted := name.2
              command_accepted := command.2 }
      | name, command, extra => .error (errorsOf name ++ errorsOf command ++ extra)
  | v => .error [notAnObject (.value v)]

/-! ### Which lists of errors can be rendered -/

/-- A string that would do but for a character. -/
def Blacklisted (v : Json.Value) : Prop :=
  ∃ cs : List Char, v = .str (PyStr.ofChars cs) ∧ 1 ≤ cs.length ∧ cs.length ≤ maxFieldLength ∧
    ∃ c ∈ cs, c ∈ injectionBlacklist

/-- A field of the body is a string that would do but for a character. -/
def TripsBlacklist : Json.Value → Prop
  | .obj members =>
      Blacklisted (Json.get members nameKey) ∨ Blacklisted (Json.get members commandKey)
  | _ => False

theorem fieldEntry_renders_iff {field : PyStr} {type msg : String} {input : Json.Value}
    {ctx : List (String × Content)} :
    (fieldEntry field type msg input ctx).toContent.renders = true ↔
      Json.encodable field = true ∧ Json.writable input = true ∧
        ∀ m ∈ ctx, m.2.renders = true := by
  have hbody : Json.encodable bodyKey = true := by decide
  rw [ErrorEntry.renders_iff]
  simp [fieldEntry, Json.writableElements, Json.writable, Content.renders, hbody]

theorem bodyEntry_renders_iff {type msg : String} {input : Content} :
    (bodyEntry type msg input).toContent.renders = true ↔ input.renders = true := by
  have hbody : Json.encodable bodyKey = true := by decide
  rw [ErrorEntry.renders_iff]
  simp [bodyEntry, Json.writableElements, Json.writable, hbody]

theorem not_blacklisted_of_ne_str {v : Json.Value} (h : ∀ s, v ≠ .str s) : ¬ Blacklisted v := by
  intro hblack
  obtain ⟨cs, rfl, -⟩ := hblack
  exact h _ rfl

theorem blacklisted_str_iff {cs : List Char} : Blacklisted (.str (PyStr.ofChars cs)) ↔
    1 ≤ cs.length ∧ cs.length ≤ maxFieldLength ∧ ∃ c ∈ cs, c ∈ injectionBlacklist := by
  refine ⟨?_, ?_⟩
  · intro hblack
    obtain ⟨cs', heq, hrest⟩ := hblack
    obtain rfl : cs = cs' := PyStr.ofChars_injective (Json.Value.str.inj heq)
    exact hrest
  · exact fun h => ⟨cs, rfl, h⟩

/-- What `checkText` makes of a value: the value, the exception of `_check_text`, or an entry
about its type, text or length. -/
theorem checkText_inv (field : PyStr) (v : Json.Value) :
    (∃ w, checkText field v = .ok w ∧ Json.writable v = true ∧ ¬ Blacklisted v) ∨
    (Blacklisted v ∧ checkText field v = .error (fieldEntry field "value_error"
      "Value error, contains blacklisted characters" v [("error", .object)])) ∨
    ∃ type msg ctx, checkText field v = .error (fieldEntry field type msg v ctx) ∧
      (∀ m ∈ ctx, m.2.renders = true) ∧ ¬ Blacklisted v := by
  unfold checkText
  split
  next s =>
      split
      next hchars =>
          refine Or.inr (Or.inr ⟨_, _, _, rfl, by simp, ?_⟩)
          intro hblack
          obtain ⟨cs, heq, -⟩ := hblack
          rw [Json.Value.str.inj heq, PyStr.chars?_ofChars] at hchars
          cases hchars
      next cs hchars =>
          obtain rfl := PyStr.eq_ofChars hchars
          have hlength : (String.ofList cs).length = cs.length := String.length_ofList
          simp only [hlength, String.toList_ofList]
          rw [blacklisted_str_iff]
          split
          next hlong =>
              have hctx : Content.renders (.int maxFieldLength) = true := by decide +kernel
              refine Or.inr (Or.inr ⟨_, _, _, rfl, by simpa using hctx, ?_⟩)
              exact fun h => hlong.not_ge h.2.1
          next hlong =>
              split
              next hshort =>
                  have hctx : Content.renders (.int 1) = true := by decide +kernel
                  refine Or.inr (Or.inr ⟨_, _, _, rfl, by simpa using hctx, ?_⟩)
                  exact fun h => hshort.not_ge h.1
              next hshort =>
                  split
                  next hfine =>
                      have hwrite : Json.writable (.str (PyStr.ofChars cs)) = true := by
                        simp [Json.writable, Json.encodable, hchars]
                      refine Or.inl ⟨_, rfl, hwrite, ?_⟩
                      intro hblack
                      obtain ⟨-, -, c, hc, hmem⟩ := hblack
                      exact hfine c hc hmem
                  next hblack =>
                      push Not at hblack
                      exact Or.inr (Or.inl ⟨⟨by omega, by omega, hblack⟩, rfl⟩)
  next hstr =>
      exact Or.inr (Or.inr ⟨_, _, _, rfl, by simp, not_blacklisted_of_ne_str hstr⟩)

/-- The entry about a value can be rendered when the value can be written back, unless it is
the exception that is in the way. -/
theorem checkText_error {field : PyStr} (hfield : Json.encodable field = true) {v : Json.Value}
    {e : ErrorEntry} (h : checkText field v = .error e) :
    e.toContent.renders = true ↔ Json.writable v = true ∧ ¬ Blacklisted v := by
  rcases checkText_inv field v with ⟨w, hw, -⟩ | ⟨hblack, he⟩ | ⟨type, msg, ctx, he, hctx, hnot⟩
  · rw [hw] at h
    cases h
  · obtain rfl := Except.error.inj (he.symm.trans h)
    rw [fieldEntry_renders_iff]
    refine iff_of_false ?_ fun hall => hall.2 hblack
    intro hall
    exact absurd (hall.2.2 _ List.mem_cons_self) (by simp [Content.renders])
  · obtain rfl := Except.error.inj (he.symm.trans h)
    rw [fieldEntry_renders_iff]
    exact ⟨fun hall => ⟨hall.2.1, hnot⟩, fun hall => ⟨hfield, hall.1, hctx⟩⟩

theorem checkText_ok {field : PyStr} {v : Json.Value} {w : {value : String // AcceptedText value}}
    (h : checkText field v = .ok w) : Json.writable v = true ∧ ¬ Blacklisted v := by
  rcases checkText_inv field v with ⟨_, -, hfine⟩ | ⟨-, he⟩ | ⟨type, msg, ctx, he, -⟩
  · exact hfine
  · rw [he] at h
    cases h
  · rw [he] at h
    cases h

section Object

variable {members : List (PyStr × Json.Value)} {field : PyStr}

theorem get_eq_null (h : field ∉ members.map Prod.fst) : Json.get members field = .null := by
  rw [Json.get, Json.lookup_reverse_eq_none h, Option.getD_none]

/-- A field gives no entry that cannot be rendered exactly when it is not one of the bad
strings and what it echoes can be written back. -/
theorem readField_renders_iff (hfield : Json.encodable field = true) :
    (∀ e ∈ errorsOf (readField members field), e.toContent.renders = true) ↔
      ¬ Blacklisted (Json.get members field) ∧
        if field ∈ members.map Prod.fst then Json.writable (Json.get members field) = true
        else Json.writable (.obj members) = true := by
  unfold readField
  split
  next hmem =>
      cases hcheck : checkText field (Json.get members field) with
      | error e =>
          rw [errorsOf, List.forall_mem_singleton, checkText_error hfield hcheck, and_comm]
      | ok w =>
          have hfine := checkText_ok hcheck
          simp [errorsOf, hfine]
  next hmissing =>
      have hnull : ¬ Blacklisted (Json.get members field) := by
        rw [get_eq_null hmissing]
        exact not_blacklisted_of_ne_str fun s h => by cases h
      rw [errorsOf, List.forall_mem_singleton, fieldEntry_renders_iff]
      simp [hfield, hnull]

theorem extraEntries_render_iff :
    (∀ e ∈ extraEntries members, e.toContent.renders = true) ↔
      ∀ k ∈ members.map Prod.fst, k ∉ [nameKey, commandKey] →
        Json.encodable k = true ∧ Json.writable (Json.get members k) = true := by
  rw [extraEntries, List.forall_mem_map]
  refine forall_congr' fun k => ?_
  rw [fieldEntry_renders_iff, List.mem_filter, List.mem_eraseDups]
  simp

/-- An object gets a list of errors that can be rendered exactly when it can itself be
written back and neither field is one of the bad strings. -/
theorem object_renders_iff :
    (∀ e ∈ errorsOf (readField members nameKey) ++ errorsOf (readField members commandKey) ++
        extraEntries members, e.toContent.renders = true) ↔
      Json.writable (.obj members) = true ∧ ¬ TripsBlacklist (.obj members) := by
  have hname : Json.encodable nameKey = true := by decide
  have hcommand : Json.encodable commandKey = true := by decide
  rw [List.forall_mem_append, List.forall_mem_append, readField_renders_iff hname,
    readField_renders_iff hcommand, extraEntries_render_iff, TripsBlacklist, not_or]
  refine ⟨?_, ?_⟩
  · intro hboth
    obtain ⟨⟨⟨hname', hechoName⟩, hcommand', hechoCommand⟩, hextra⟩ := hboth
    refine ⟨?_, hname', hcommand'⟩
    rw [Json.writable, Json.writableMembers_iff]
    intro k hk
    by_cases hkname : k = nameKey
    · subst hkname
      rw [if_pos hk] at hechoName
      exact ⟨hname, hechoName⟩
    · by_cases hkcommand : k = commandKey
      · subst hkcommand
        rw [if_pos hk] at hechoCommand
        exact ⟨hcommand, hechoCommand⟩
      · exact hextra k hk (by simp [hkname, hkcommand])
  · intro hboth
    obtain ⟨hwritable, hname', hcommand'⟩ := hboth
    have hall := hwritable
    rw [Json.writable, Json.writableMembers_iff] at hall
    refine ⟨⟨⟨hname', ?_⟩, hcommand', ?_⟩, fun k hk _ => hall k hk⟩
    · split_ifs with hk
      · exact (hall _ hk).2
      · exact hwritable
    · split_ifs with hk
      · exact (hall _ hk).2
      · exact hwritable

theorem readField_ok {w : {value : String // AcceptedText value}}
    (h : readField members field = .ok w) : ¬ Blacklisted (Json.get members field) := by
  unfold readField at h
  split at h
  next => exact (checkText_ok h).2
  next => cases h

end Object

/-- A body with a blacklisted character in a field is rejected. -/
theorem validate_of_tripsBlacklist {v : Json.Value} (h : TripsBlacklist v) :
    ∃ errors, validate v = .error errors := by
  cases v with
  | obj members =>
      simp only [validate]
      split
      next hname hcommand _ =>
          rcases h with h | h
          · exact absurd h (readField_ok hname)
          · exact absurd h (readField_ok hcommand)
      next => exact ⟨_, rfl⟩
  | _ => exact h.elim

/-- **Which rejected bodies get errors that can be rendered**: those that can be written back
and in which no field would do but for a blacklisted character. -/
theorem validate_renders_iff {v : Json.Value} {es : List ErrorEntry} (h : validate v = .error es) :
    (∀ e ∈ es, e.toContent.renders = true) ↔ Json.writable v = true ∧ ¬ TripsBlacklist v := by
  unfold validate at h
  split at h
  next =>
      cases h
      rw [List.forall_mem_singleton, missingBody, bodyEntry_renders_iff]
      simp [Content.renders, Json.writable, TripsBlacklist]
  next members =>
      split at h
      next => cases h
      next =>
          cases h
          exact object_renders_iff
  next hnull hobj =>
      cases h
      have htrips : ¬ TripsBlacklist v := by
        cases v with
        | obj members => exact absurd rfl (hobj members)
        | _ => exact id
      rw [List.forall_mem_singleton, notAnObject, bodyEntry_renders_iff, Content.renders]
      simp [htrips]

end Taskq.TaskCreate
