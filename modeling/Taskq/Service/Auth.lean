import Taskq.Repository.Keys

/-!
# Taskq.Service.Auth

`service/auth.py`: from a plaintext key to a scope, and from a scope to a yes or
a no.

A key can get its scope from two places: an active `api_keys` row, or the literal
map `_LEGACY_KEY_SCOPES`, kept so that the oldest tests authenticate without a
row. The map is consulted whenever the lookup gives nothing, and a lookup that
raises gives nothing. So the soundness statement (`Sound`) takes the keys that may
authenticate without a row as a parameter: it holds for the legacy map
(`verifyAPIKey_sound`) and fails for no exception at all
(`legacy_key_needs_no_row`).
-/

namespace Taskq

open Unicode

/-- What `verify_api_key` raises. -/
inductive AuthError
  /-- 401. -/
  | invalidAPIKey
  /-- 403. -/
  | insufficientScope
  deriving DecidableEq, Repr

/-- `_LEGACY_KEY_SCOPES.get`. -/
def legacyKeyScopes (key : PyStr) : Option PyStr :=
  if key = PyStr.ofString "taskq-write-test-key-abc123" then some (PyStr.ofString "write")
  else if key = PyStr.ofString "taskq-read-test-key-abc456" then some (PyStr.ofString "read")
  else if key = PyStr.ofString "taskq-admin-test-key-xyz789" then some (PyStr.ofString "admin")
  else none

/-- `_SCOPE_RANK.get`: `read < write < admin`. -/
def scopeRank (scope : PyStr) : Option ℕ :=
  if scope = PyStr.ofString "read" then some 0
  else if scope = PyStr.ofString "write" then some 1
  else if scope = PyStr.ofString "admin" then some 2
  else none

/-- The dict `verify_api_key` returns. -/
structure Principal where
  scope : PyStr
  keyId : PyStr
  deriving DecidableEq

section Verify

variable (sha256 : List Byte → String) {t : APIKeyTable} (scan : t.Scan)

/-- `_lookup_scope`: `except Exception` turns a failed lookup into no row. -/
def lookupScope (key : PyStr) : Option PyStr :=
  match APIKeyTable.lookupActive sha256 scan key with
  | .error _ => none
  | .ok none => none
  | .ok (some row) => some (PyStr.ofString row.scope)

/-- Python's `x or y` on strings that may be `None`: the empty string is false too. -/
def orElse (x y : Option PyStr) : Option PyStr :=
  match x with
  | none | some [] => y
  | some _ => x

/-- `verify_api_key`. -/
def verifyAPIKey (key : Option PyStr) (scopeRequired : Option PyStr) :
    Except AuthError Principal :=
  match key with
  | none | some [] => .error .invalidAPIKey
  | some key =>
      match orElse (lookupScope sha256 scan key) (legacyKeyScopes key) with
      | none => .error .invalidAPIKey
      | some scope =>
          match scopeRequired with
          | none => .ok { scope, keyId := key }
          | some required =>
              match scopeRank required, scopeRank scope with
              | some requiredRank, some heldRank =>
                  if heldRank < requiredRank then .error .insufficientScope
                  else .ok { scope, keyId := key }
              | _, _ => .error .insufficientScope

/-! ### What authentication promises -/

/-- The scope `held` meets the requirement `required`; unknown scopes meet nothing. -/
def Meets (held required : PyStr) : Prop :=
  ∃ h r, scopeRank held = some h ∧ scopeRank required = some r ∧ r ≤ h

/-- Some row for `key` is active and its scope meets the requirement. -/
def ActiveRowMeets (t : APIKeyTable) (key required : PyStr) : Prop :=
  ∃ row ∈ t.rows, hashAPIKey sha256 key = .ok row.keyHash ∧ row.revokedAt = none ∧
    Meets (PyStr.ofString row.scope) required

/-- Every row for `key` is revoked; in particular when there is none. -/
def AllRevoked (t : APIKeyTable) (key : PyStr) : Prop :=
  ∀ row ∈ t.rows, hashAPIKey sha256 key = .ok row.keyHash → row.revokedAt.isSome

/-- The storage lookup raises. -/
def APIKeyTable.Scan.Failed : t.Scan → Prop
  | .failed _ => True
  | .scanned _ _ => False

/-- Soundness of authentication for one key and one required scope, `exempt` giving
the scopes of the keys that authenticate without a row. -/
structure Sound (exempt : PyStr → Option PyStr) (key required : PyStr) : Prop where
  /-- Who gets in holds a scope that is high enough. -/
  success : ∀ p, verifyAPIKey sha256 scan (some key) (some required) = .ok p →
    (¬ scan.Failed ∧ ActiveRowMeets sha256 t key required) ∨
      ∃ held, exempt key = some held ∧ Meets held required
  /-- With every row revoked, with none, or with the storage failing, nobody gets in. -/
  closed : (AllRevoked sha256 t key ∨ scan.Failed) → exempt key = none →
    verifyAPIKey sha256 scan (some key) (some required) = .error .invalidAPIKey
  /-- Unknown scopes, held or required, never pass. -/
  known : ∀ p, verifyAPIKey sha256 scan (some key) (some required) = .ok p →
    Meets p.scope required

variable {sha256 scan}

theorem orElse_some {x y : Option PyStr} {s : PyStr} (h : orElse x y = some s) :
    x = some s ∨ y = some s := by
  unfold orElse at h
  split at h
  · exact Or.inr h
  · exact Or.inr h
  · exact Or.inl h

@[simp] theorem orElse_none (y : Option PyStr) : orElse none y = y := rfl

theorem lookupScope_some {key scope : PyStr} (h : lookupScope sha256 scan key = some scope) :
    ¬ scan.Failed ∧ ∃ row ∈ t.rows, hashAPIKey sha256 key = .ok row.keyHash ∧
      row.revokedAt = none ∧ scope = PyStr.ofString row.scope := by
  unfold lookupScope at h
  split at h
  · cases h
  · cases h
  next d hlookup =>
      obtain ⟨rows, perm, hscan, row, hrow, hash, hhash, ⟨hkey, hactive⟩, hd⟩ :=
        APIKeyTable.lookupActive_some hlookup
      refine ⟨?_, row, hrow, by rw [hhash, hkey], hactive, ?_⟩
      · rw [hscan]
        exact id
      · cases h
        rw [hd]
        rfl

theorem lookupScope_failed {key : PyStr} (h : scan.Failed) :
    lookupScope sha256 scan key = none := by
  cases hscope : lookupScope sha256 scan key with
  | none => rfl
  | some scope => exact absurd h (lookupScope_some hscope).1

theorem lookupScope_allRevoked {key : PyStr} (h : AllRevoked sha256 t key) :
    lookupScope sha256 scan key = none := by
  cases hscope : lookupScope sha256 scan key with
  | none => rfl
  | some scope =>
      obtain ⟨-, row, hrow, hhash, hactive, -⟩ := lookupScope_some hscope
      have hrevoked := h row hrow hhash
      rw [hactive] at hrevoked
      cases hrevoked

/-- The one way through `verify_api_key`. -/
theorem verifyAPIKey_ok {key required : PyStr} {p : Principal}
    (h : verifyAPIKey sha256 scan (some key) (some required) = .ok p) :
    orElse (lookupScope sha256 scan key) (legacyKeyScopes key) = some p.scope ∧
      p.keyId = key ∧ Meets p.scope required := by
  unfold verifyAPIKey at h
  split at h
  · cases h
  · cases h
  next key' _ heq =>
      cases heq
      split at h
      · cases h
      next scope hscope =>
          simp only at h
          split at h
          next requiredRank heldRank hrequired hheld =>
              split_ifs at h with hlt
              cases h
              exact ⟨hscope, rfl, heldRank, requiredRank, hheld, hrequired, not_lt.mp hlt⟩
          · cases h

theorem verifyAPIKey_unresolved {key : PyStr} {required : Option PyStr}
    (h : orElse (lookupScope sha256 scan key) (legacyKeyScopes key) = none) :
    verifyAPIKey sha256 scan (some key) required = .error .invalidAPIKey := by
  unfold verifyAPIKey
  split
  · rfl
  · rfl
  next key' _ heq =>
      cases heq
      rw [h]

end Verify

/-- Authentication is sound on any table, the legacy keys apart. -/
theorem sound_legacy (sha256 : List Byte → String) {t : APIKeyTable} (scan : t.Scan)
    (key required : PyStr) : Sound sha256 scan legacyKeyScopes key required where
  success p h := by
    obtain ⟨hscope, -, hmeets⟩ := verifyAPIKey_ok h
    rcases orElse_some hscope with hrow | hlegacy
    · obtain ⟨hnot, row, hmem, hhash, hactive, hheld⟩ := lookupScope_some hrow
      exact Or.inl ⟨hnot, row, hmem, hhash, hactive, hheld ▸ hmeets⟩
    · exact Or.inr ⟨p.scope, hlegacy, hmeets⟩
  closed h hlegacy := by
    have hnone : lookupScope sha256 scan key = none := by
      rcases h with h | h
      · exact lookupScope_allRevoked h
      · exact lookupScope_failed h
    exact verifyAPIKey_unresolved (by rw [hnone, orElse_none, hlegacy])
  known p h := (verifyAPIKey_ok h).2.2

/-- **Authentication is sound, the legacy keys apart, and revocation is final.** After
any history of creations and revocations, whatever the storage answers: who gets in has
an active row of sufficient scope or a legacy key of sufficient scope; a key that is not
legacy and has no active row, or whose lookup fails, gets `InvalidAPIKey`; unknown scopes
never pass; and a row that was revoked has stayed so. -/
theorem verifyAPIKey_sound (sha256 : List Byte → String) (ops : List APIKeyTable.Op)
    (scan : (APIKeyTable.empty.run ops).Scan) (key required : PyStr) :
    Sound sha256 scan legacyKeyScopes key required ∧ APIKeyTable.RevocationFinal ops :=
  ⟨sound_legacy sha256 scan key required, APIKeyTable.revocationFinal ops⟩

/-- One character per byte, as a digest that never collides. -/
def transparentDigest (bytes : List Byte) : String :=
  String.ofList (bytes.map fun b => Char.ofNat b.val)

theorem transparentDigest_injective : Function.Injective transparentDigest := by
  have hchar : Function.Injective fun b : Byte => Char.ofNat b.val := by
    intro a b h
    have hval : ∀ c : Byte, (Char.ofNat c.val).toNat = c.val := fun c =>
      toNat_ofNat (by omega)
    rw [Fin.ext_iff, ← hval a, ← hval b]
    exact congrArg Char.toNat h
  intro a b h
  exact List.map_injective_iff.mpr hchar (String.ofList_injective h)

/-- A legacy key gets in with no row at all, so soundness without the exception for
the legacy keys fails. -/
theorem legacy_key_needs_no_row :
    ¬ ∀ sha256 : List Byte → String, Function.Injective sha256 →
      ∀ (ops : List APIKeyTable.Op) (scan : (APIKeyTable.empty.run ops).Scan)
        (key required : PyStr), Sound sha256 scan (fun _ => none) key required := by
  intro h
  have hsound := h transparentDigest transparentDigest_injective []
    (.scanned [] (List.Perm.refl [])) (PyStr.ofString "taskq-admin-test-key-xyz789")
    (PyStr.ofString "write")
  have hclosed := hsound.closed (Or.inl (by intro row hrow; cases hrow)) rfl
  exact absurd hclosed (by decide)

end Taskq
