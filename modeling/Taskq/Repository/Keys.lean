import Mathlib.Data.List.Nodup
import Mathlib.Data.List.Perm.Basic
import Taskq.Models
import Taskq.Lib.Unicode

/-!
# Taskq.Repository.Keys

The `api_keys` table (`repository/keys.py`, `models/api_key.py`).

A row stores the hash of a key, its scope and, once the key is disabled,
`revoked_at`; nothing clears `revoked_at` again. `lookup_active` selects by hash
among the rows that are not revoked and takes the first one the scan meets, in no
stated order.

SHA-256 is a parameter: only the bytes it is given and the fact that the same
function writes and reads matter here.
-/

namespace Taskq

open Unicode

/-- An `api_keys` row. -/
structure APIKey where
  id : String
  keyHash : String
  scope : String
  createdAt : DateTime
  revokedAt : Option DateTime
  deriving DecidableEq

namespace APIKey

/-- Disable the key of one row. -/
def revoke (row : APIKey) (id : String) (time : DateTime) : APIKey :=
  if row.id = id then { row with revokedAt := some time } else row

@[simp] theorem revoke_id (row : APIKey) (id : String) (time : DateTime) :
    (row.revoke id time).id = row.id := by
  unfold revoke
  split_ifs <;> rfl

/-- A row for `hash` whose key is not disabled. -/
def Active (row : APIKey) (hash : String) : Prop :=
  row.keyHash = hash ∧ row.revokedAt = none

instance (row : APIKey) (hash : String) : Decidable (row.Active hash) :=
  inferInstanceAs (Decidable (_ ∧ _))

end APIKey

/-- `_row_to_dict`. -/
structure APIKeyDict where
  id : String
  keyHash : String
  scope : String
  createdAt : List Char
  revokedAt : Option (List Char)
  deriving DecidableEq

def rowToDict (row : APIKey) : APIKeyDict where
  id := row.id
  keyHash := row.keyHash
  scope := row.scope
  createdAt := row.createdAt.isoformat
  revokedAt := row.revokedAt.map DateTime.isoformat

/-- The table: the primary key is unique, the hash is not. -/
structure APIKeyTable where
  rows : List APIKey
  ids_nodup : (rows.map APIKey.id).Nodup

/-- `hash_api_key`: the digest of the UTF-8 bytes. -/
def hashAPIKey (sha256 : List Byte → String) (plaintext : PyStr) : Except StorageError String :=
  match encode? plaintext with
  | some bytes => .ok (sha256 bytes)
  | none => .error .unicodeEncode

namespace APIKeyTable

def empty : APIKeyTable where
  rows := []
  ids_nodup := List.nodup_nil

/-- `APIKeyRepository.create`, on the row's column values. -/
def create (t : APIKeyTable) (row : APIKey) : Except StorageError (APIKeyTable × APIKeyDict) :=
  if h : row.id ∈ t.rows.map APIKey.id then
    .error .integrity
  else
    .ok
      ({ rows := row :: t.rows
         ids_nodup := List.nodup_cons.mpr ⟨h, t.ids_nodup⟩ },
        rowToDict row)

/-- `UPDATE api_keys SET revoked_at = :time WHERE id = :id`. -/
def revoke (t : APIKeyTable) (id : String) (time : DateTime) : APIKeyTable where
  rows := t.rows.map fun row => row.revoke id time
  ids_nodup := by
    have hids : (t.rows.map fun row => row.revoke id time).map APIKey.id
        = t.rows.map APIKey.id := by
      rw [List.map_map]
      exact List.map_congr_left fun row _ => row.revoke_id id time
    rw [hids]
    exact t.ids_nodup

/-! ### Histories -/

/-- What can happen to the table. -/
inductive Op
  | create (row : APIKey)
  | revoke (id : String) (time : DateTime)

/-- One operation; a creation that raises is rolled back. -/
def step (t : APIKeyTable) : Op → APIKeyTable
  | .create row =>
      match t.create row with
      | .ok (t', _) => t'
      | .error _ => t
  | .revoke id time => t.revoke id time

def run (t : APIKeyTable) (ops : List Op) : APIKeyTable := ops.foldl step t

/-- The row `id` is there, with its key disabled. -/
def Revoked (t : APIKeyTable) (id : String) : Prop :=
  ∃ row ∈ t.rows, row.id = id ∧ row.revokedAt.isSome

theorem create_rows {t t' : APIKeyTable} {row : APIKey} {d : APIKeyDict}
    (h : t.create row = .ok (t', d)) : row.id ∉ t.rows.map APIKey.id ∧ t'.rows = row :: t.rows := by
  unfold create at h
  split_ifs at h with hid
  cases h
  exact ⟨hid, rfl⟩

/-- A row with the id of a revoked row is that row, so it is revoked too. -/
theorem Revoked.of_mem {t : APIKeyTable} {id : String} (h : t.Revoked id) {row : APIKey}
    (hrow : row ∈ t.rows) (hid : row.id = id) : row.revokedAt.isSome := by
  obtain ⟨row', hrow', hid', hrevoked⟩ := h
  rwa [List.inj_on_of_nodup_map t.ids_nodup hrow hrow' (hid.trans hid'.symm)]

theorem Revoked.step {t : APIKeyTable} {id : String} (h : t.Revoked id) (op : Op) :
    (t.step op).Revoked id := by
  obtain ⟨row, hrow, hid, hrevoked⟩ := h
  cases op with
  | create new =>
      simp only [APIKeyTable.step]
      cases hcreate : t.create new with
      | error e => exact ⟨row, hrow, hid, hrevoked⟩
      | ok r =>
          obtain ⟨t', d⟩ := r
          refine ⟨row, ?_, hid, hrevoked⟩
          show row ∈ t'.rows
          rw [(create_rows hcreate).2]
          exact List.mem_cons_of_mem _ hrow
  | revoke other time =>
      refine ⟨row.revoke other time, List.mem_map_of_mem hrow, by simpa using hid, ?_⟩
      unfold APIKey.revoke
      split_ifs
      · rfl
      · exact hrevoked

/-- **Revocation is final**: no later history undoes it. -/
theorem Revoked.run {t : APIKeyTable} {id : String} (h : t.Revoked id) (ops : List Op) :
    (t.run ops).Revoked id := by
  induction ops generalizing t with
  | nil => exact h
  | cons op ops ih => exact ih (h.step op)

theorem revoked_revoke {t : APIKeyTable} {id : String} (time : DateTime)
    (h : id ∈ t.rows.map APIKey.id) : (t.revoke id time).Revoked id := by
  obtain ⟨row, hrow, hid⟩ := List.mem_map.mp h
  refine ⟨row.revoke id time, List.mem_map_of_mem hrow, by simpa using hid, ?_⟩
  rw [APIKey.revoke, if_pos hid]
  rfl

/-- A row that is revoked at some point of a history is revoked at its end. -/
def RevocationFinal (ops : List Op) : Prop :=
  ∀ before after id time, ops = before ++ .revoke id time :: after →
    id ∈ (empty.run before).rows.map APIKey.id →
      ∀ row ∈ (empty.run ops).rows, row.id = id → row.revokedAt.isSome

theorem revocationFinal (ops : List Op) : RevocationFinal ops := by
  intro before after id time hops hmem row hrow hid
  have hfinal : (empty.run ops).Revoked id := by
    rw [hops, run, List.foldl_append]
    exact (revoked_revoke time hmem).run after
  exact hfinal.of_mem hrow hid

/-! ### Lookup -/

/-- How the storage answers a `SELECT` on the table: it raises, or it scans the
rows in some order. -/
inductive Scan (t : APIKeyTable)
  | failed (e : StorageError)
  | scanned (rows : List APIKey) (perm : rows.Perm t.rows)

/-- `APIKeyRepository.lookup_active`. -/
def lookupActive (sha256 : List Byte → String) {t : APIKeyTable} (scan : Scan t)
    (candidate : PyStr) : Except StorageError (Option APIKeyDict) := do
  let candidateHash ← hashAPIKey sha256 candidate
  match scan with
  | .failed e => .error e
  | .scanned rows _ =>
      return (rows.find? fun row => row.Active candidateHash).map rowToDict

/-- What the lookup finds is an active row for the key, whatever the scan order. -/
theorem lookupActive_some {sha256 : List Byte → String} {t : APIKeyTable} {scan : Scan t}
    {candidate : PyStr} {d : APIKeyDict} (h : lookupActive sha256 scan candidate = .ok (some d)) :
    ∃ rows perm, scan = .scanned rows perm ∧ ∃ row ∈ t.rows, ∃ hash,
      hashAPIKey sha256 candidate = .ok hash ∧ row.Active hash ∧ d = rowToDict row := by
  unfold lookupActive at h
  cases hhash : hashAPIKey sha256 candidate with
  | error e => rw [hhash] at h; cases h
  | ok hash =>
      rw [hhash] at h
      cases scan with
      | failed e => cases h
      | scanned rows perm =>
          refine ⟨rows, perm, rfl, ?_⟩
          have hfind : (rows.find? fun row => row.Active hash).map rowToDict = some d := by
            exact Except.ok.inj h
          obtain ⟨row, hrow, hd⟩ := Option.map_eq_some_iff.mp hfind
          have hactive : row.Active hash := by simpa using List.find?_some hrow
          exact ⟨row, perm.mem_iff.mp (List.mem_of_find?_eq_some hrow), hash, rfl, hactive, hd.symm⟩

end APIKeyTable

end Taskq
