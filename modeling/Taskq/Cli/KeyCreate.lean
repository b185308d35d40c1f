import Mathlib.Data.List.OfFn
import Taskq.Api.Endpoints
import Taskq.Lib.Base64

/-!
# Taskq.Cli.KeyCreate

`key create --scope <scope>` (`cli/key_create.py`), and what becomes of the key it prints.

The token is drawn, hashed and stored, and printed once. What is sent in `X-API-Key` later is
decoded as Latin-1, which is no matter for a token of the URL-safe alphabet, and it is none of
the keys that need no row, which are shorter. So `verify_api_key` answers for it as its one row
says, whatever else has been created or revoked.
-/

namespace Taskq.KeyCreate

open Http Unicode

/-! ### The command -/

/-- What is drawn while the command runs. -/
structure Draw where
  /-- `secrets.token_bytes(32)`. -/
  bytes : Fin 32 → Byte
  id : String
  now : DateTime

/-- `_generate_plaintext`. -/
def generatePlaintext (bytes : Fin 32 → Byte) : List Char := Base64.bare (List.ofFn bytes)

/-- The row of a new key. -/
def newRow (draw : Draw) (scope keyHash : String) : APIKey where
  id := draw.id
  keyHash := keyHash
  scope := scope
  createdAt := draw.now
  revokedAt := none

/-- `main`, behind the parser of its arguments: the table afterwards, and what is printed. -/
def main (sha256 : List Byte → String) (draw : Draw) (scope : String) (t : APIKeyTable) :
    Except StorageError (APIKeyTable × List Char) :=
  let plaintext := generatePlaintext draw.bytes
  match hashAPIKey sha256 (PyStr.ofChars plaintext) with
  | .error e => .error e
  | .ok keyHash =>
      match t.create (newRow draw scope keyHash) with
      | .error e => .error e
      | .ok (t', _) => .ok (t', plaintext ++ ['\n'])

/-! ### The token -/

theorem length_generatePlaintext (bytes : Fin 32 → Byte) :
    (generatePlaintext bytes).length = 43 := by
  rw [generatePlaintext, Base64.length_bare, List.length_ofFn]

theorem ascii_generatePlaintext (bytes : Fin 32 → Byte) : Ascii (generatePlaintext bytes) :=
  fun c hc => (Base64.bare_mem _ c hc).ascii

/-- The keys that need no row are shorter. -/
theorem legacyKeyScopes_generatePlaintext (bytes : Fin 32 → Byte) :
    legacyKeyScopes (PyStr.ofChars (generatePlaintext bytes)) = none := by
  have hlength : (PyStr.ofChars (generatePlaintext bytes)).length = 43 := by
    rw [PyStr.ofChars, List.length_map, length_generatePlaintext]
  have hne : ∀ key : PyStr, key.length ≠ 43 → PyStr.ofChars (generatePlaintext bytes) ≠ key := by
    rintro key hkey rfl
    exact hkey hlength
  rw [legacyKeyScopes, if_neg (hne _ (by decide)), if_neg (hne _ (by decide)),
    if_neg (hne _ (by decide))]

/-- The request comes with this token, before any other. -/
def Presents (request : Request) (token : List Char) : Prop :=
  request.headers.find? (·.name = apiKeyHeader)
    = some { name := apiKeyHeader, value := encodeLatin1 token }

/-- The token gets through the header as it is. -/
theorem apiKey_of_presents {request : Request} {bytes : Fin 32 → Byte}
    (h : Presents request (generatePlaintext bytes)) :
    apiKey request = some (PyStr.ofChars (generatePlaintext bytes)) := by
  have hlatin1 : IsLatin1 (generatePlaintext bytes) :=
    fun c hc => (ascii_generatePlaintext bytes c hc).trans (by decide)
  rw [apiKey, getHeader, h, Option.map_some, Option.map_some, latin1_encodeLatin1 hlatin1]

/-! ### The row -/

/-- There is a row of this hash, and every such row has this id and scope and is revoked or not. -/
structure Stored (t : APIKeyTable) (hash id scope : String) (revoked : Prop) : Prop where
  mem : ∃ row ∈ t.rows, row.keyHash = hash
  only : ∀ row ∈ t.rows, row.keyHash = hash →
    row.id = id ∧ row.scope = scope ∧ (row.revokedAt.isSome ↔ revoked)

section Table

variable {t t' : APIKeyTable} {hash id scope : String} {revoked : Prop}

/-- A new row is the only one of its hash. -/
theorem stored_create {draw : Draw} {d : APIKeyDict}
    (hcreate : t.create (newRow draw scope hash) = .ok (t', d))
    (hnew : ∀ row ∈ t.rows, row.keyHash ≠ hash) : Stored t' hash draw.id scope False := by
  have hrows := (APIKeyTable.create_rows hcreate).2
  constructor
  case mem => exact ⟨_, hrows ▸ List.mem_cons_self, rfl⟩
  case only =>
    intro row hrow hhash
    rw [hrows] at hrow
    rcases List.mem_cons.mp hrow with rfl | hrow
    · exact ⟨rfl, rfl, by simp [newRow]⟩
    · exact absurd hhash (hnew row hrow)

/-- The operation creates a row of this hash. -/
def Creates (hash : String) : APIKeyTable.Op → Prop
  | .create row => row.keyHash = hash
  | .revoke _ _ => False

theorem Stored.step (h : Stored t hash id scope revoked) {op : APIKeyTable.Op}
    (hop : ¬ Creates hash op) :
    Stored (t.step op) hash id scope (revoked ∨ ∃ time, op = .revoke id time) := by
  cases op with
  | create new =>
      have hnever : (revoked ∨ ∃ time, APIKeyTable.Op.create new = .revoke id time) ↔ revoked := by
        simp
      simp only [APIKeyTable.step, hnever]
      split
      next t' d hcreate =>
          have hrows := (APIKeyTable.create_rows hcreate).2
          constructor
          case mem =>
            obtain ⟨row, hrow, hhash⟩ := h.mem
            exact ⟨row, hrows ▸ List.mem_cons_of_mem new hrow, hhash⟩
          case only =>
            intro row hrow hhash
            rw [hrows] at hrow
            rcases List.mem_cons.mp hrow with rfl | hrow
            · exact absurd hhash hop
            · exact h.only row hrow hhash
      next => exact h
  | revoke other time =>
      constructor
      case mem =>
        obtain ⟨row, hrow, hhash⟩ := h.mem
        refine ⟨row.revoke other time, List.mem_map_of_mem hrow, ?_⟩
        unfold APIKey.revoke
        split_ifs <;> exact hhash
      case only =>
        intro row hrow hhash
        obtain ⟨old, hold, rfl⟩ := List.mem_map.mp hrow
        have hkeep : (old.revoke other time).keyHash = old.keyHash ∧
            (old.revoke other time).scope = old.scope := by
          unfold APIKey.revoke
          split_ifs <;> exact ⟨rfl, rfl⟩
        obtain ⟨hid, hscope, hrevoked⟩ := h.only old hold (hkeep.1 ▸ hhash)
        refine ⟨(old.revoke_id other time).trans hid, hkeep.2.trans hscope, ?_⟩
        unfold APIKey.revoke
        split_ifs with hother
        · simp [← hid, ← hother]
        · rw [hrevoked]
          refine (or_iff_left ?_).symm
          rintro ⟨time', heq⟩
          cases heq
          exact hother hid

/-- The row is revoked when a revocation of it is among the operations. -/
theorem Stored.run (h : Stored t hash id scope False) {ops : List APIKeyTable.Op}
    (hops : ∀ op ∈ ops, ¬ Creates hash op) :
    Stored (t.run ops) hash id scope (∃ time, .revoke id time ∈ ops) := by
  induction ops using List.reverseRecOn with
  | nil => simpa [APIKeyTable.run] using h
  | append_singleton ops op ih =>
      have hlater := (ih fun op hop => hops op (List.mem_append_left _ hop)).step
        (hops op (by simp))
      have hrun : t.run (ops ++ [op]) = (t.run ops).step op := by
        rw [APIKeyTable.run, List.foldl_append]
        rfl
      have hiff : (∃ time, .revoke id time ∈ ops ++ [op]) ↔
          (∃ time, .revoke id time ∈ ops) ∨ ∃ time, op = .revoke id time := by
        simp only [List.mem_append, List.mem_singleton, exists_or, eq_comm]
      rw [hrun, propext hiff]
      exact hlater

end Table

/-! ### What the key is good for -/

section Verify

variable {sha256 : List Byte → String} {t : APIKeyTable} {scan : t.Scan} {key required : PyStr}
  {hash id scope : String} {revoked : Prop}

/-- What the lookup finds is what the one row says. -/
theorem Stored.lookupScope (h : Stored t hash id scope revoked)
    (hkey : hashAPIKey sha256 key = .ok hash) (hscan : ¬ scan.Failed) (hactive : ¬ revoked) :
    Taskq.lookupScope sha256 scan key = some (PyStr.ofString scope) := by
  cases scan with
  | failed e => exact absurd trivial hscan
  | scanned rows perm =>
      obtain ⟨row, hrow, hhash⟩ := h.mem
      have hnone : ∀ row ∈ t.rows, row.keyHash = hash → row.revokedAt = none := by
        intro row hrow hhash
        obtain ⟨-, -, hrevoked⟩ := h.only row hrow hhash
        exact Option.not_isSome_iff_eq_none.mp fun hsome => hactive (hrevoked.mp hsome)
      obtain ⟨found, hfound⟩ : ∃ found, (rows.find? fun row => row.Active hash) = some found := by
        refine Option.ne_none_iff_exists'.mp fun hnot => ?_
        have hall := List.find?_eq_none.mp hnot row (perm.mem_iff.mpr hrow)
        exact hall (by simpa using ⟨hhash, hnone row hrow hhash⟩)
      have hmem : found ∈ t.rows := perm.mem_iff.mp (List.mem_of_find?_eq_some hfound)
      have hfoundActive : found.Active hash := by simpa using List.find?_some hfound
      obtain ⟨-, hscope, -⟩ := h.only found hmem hfoundActive.1
      have hlookup : APIKeyTable.lookupActive sha256 (.scanned rows perm) key =
          .ok (some (rowToDict found)) := by
        unfold APIKeyTable.lookupActive
        rw [hkey]
        show Except.ok ((rows.find? fun row => row.Active hash).map rowToDict) = _
        rw [hfound]
        rfl
      rw [Taskq.lookupScope, hlookup]
      exact congrArg (fun s => some (PyStr.ofString s)) hscope

/-- A key with a scope is let through when the scope is high enough. -/
theorem verifyAPIKey_of_scope {held : PyStr} (hkey : key ≠ [])
    (hscope : orElse (Taskq.lookupScope sha256 scan key) (legacyKeyScopes key) = some held) :
    (Meets held required →
        verifyAPIKey sha256 scan (some key) (some required) = .ok { scope := held, keyId := key }) ∧
      (¬ Meets held required →
        verifyAPIKey sha256 scan (some key) (some required) = .error .insufficientScope) := by
  obtain ⟨c, cs, rfl⟩ := List.exists_cons_of_ne_nil hkey
  simp only [verifyAPIKey, hscope]
  refine ⟨?_, ?_⟩
  · rintro ⟨rank, requiredRank, hheld, hrequired, hle⟩
    simp only [hheld, hrequired, if_neg (not_lt.mpr hle)]
  · intro hlow
    split
    next requiredRank rank hrequired hheld =>
        refine if_pos ?_
        by_contra hge
        exact hlow ⟨rank, requiredRank, hheld, hrequired, not_lt.mp hge⟩
    next => rfl

end Verify

/-- What the command prints is its token, and the row that it stores is the only one of the
token's hash. -/
theorem stored_main {sha256 : List Byte → String} {draw : Draw} {scope : String}
    {t t' : APIKeyTable} {token : List Char} {hash : String}
    (hmain : main sha256 draw scope t = .ok (t', token ++ ['\n']))
    (hhash : hashAPIKey sha256 (PyStr.ofChars token) = .ok hash)
    (hnew : ∀ row ∈ t.rows, row.keyHash ≠ hash) :
    token = generatePlaintext draw.bytes ∧ Stored t' hash draw.id scope False := by
  simp only [main] at hmain
  split at hmain
  next => cases hmain
  next keyHash hkeyHash =>
      split at hmain
      next => cases hmain
      next t'' d hcreate =>
          have hpair := Except.ok.inj hmain
          obtain rfl : t'' = t' := congrArg Prod.fst hpair
          obtain rfl : generatePlaintext draw.bytes = token :=
            List.append_cancel_right (congrArg Prod.snd hpair)
          obtain rfl : keyHash = hash := Except.ok.inj (hkeyHash.symm.trans hhash)
          exact ⟨rfl, stored_create hcreate hnew⟩

/-- How `verify_api_key` answers for a token with this scope. -/
structure Answers (answer : Except AuthError Principal) (token : List Char) (scope : String)
    (required : PyStr) (dead : Prop) : Prop where
  closed : dead → answer = .error .invalidAPIKey
  opens : ¬ dead → Meets (PyStr.ofString scope) required →
    answer = .ok { scope := PyStr.ofString scope, keyId := PyStr.ofChars token }
  low : ¬ dead → ¬ Meets (PyStr.ofString scope) required → answer = .error .insufficientScope

/-- **The life of a key.** After any history of creations and revocations since the command has
printed a token, the one who sends it is let through where the scope that was asked for is high
enough, and is refused for the scope where it is not; once its row has been revoked, or while the
storage fails, the token is as good as none. No other row may have its hash. -/
theorem printed_key_answers {sha256 : List Byte → String} {draw : Draw} {scope : String}
    {t t' : APIKeyTable} {token : List Char} {hash : String}
    (hmain : main sha256 draw scope t = .ok (t', token ++ ['\n']))
    (hhash : hashAPIKey sha256 (PyStr.ofChars token) = .ok hash)
    (hnew : ∀ row ∈ t.rows, row.keyHash ≠ hash) {ops : List APIKeyTable.Op}
    (hops : ∀ op ∈ ops, ¬ Creates hash op) (scan : (t'.run ops).Scan) {request : Request}
    (hsent : Presents request token) (required : PyStr) :
    Answers (verifyAPIKey sha256 scan (apiKey request) (some required)) token scope required
      (scan.Failed ∨ (∃ time, .revoke draw.id time ∈ ops) ∨ scope = "") := by
  obtain ⟨rfl, hcreated⟩ := stored_main hmain hhash hnew
  have hstored := hcreated.run hops
  have hlegacy := legacyKeyScopes_generatePlaintext draw.bytes
  have hne : PyStr.ofChars (generatePlaintext draw.bytes) ≠ [] := by
    refine List.ne_nil_of_length_pos ?_
    rw [PyStr.ofChars, List.length_map, length_generatePlaintext]
    decide
  rw [apiKey_of_presents hsent]
  -- the scope that the key resolves to, while there is one
  have hresolves : ¬ (scan.Failed ∨ (∃ time, .revoke draw.id time ∈ ops) ∨ scope = "") →
      orElse (Taskq.lookupScope sha256 scan (PyStr.ofChars (generatePlaintext draw.bytes)))
        (legacyKeyScopes (PyStr.ofChars (generatePlaintext draw.bytes)))
        = some (PyStr.ofString scope) := by
    intro halive
    simp only [not_or] at halive
    obtain ⟨hscan, hactive, hscope⟩ := halive
    obtain ⟨c, cs, hcs⟩ := List.exists_cons_of_ne_nil (mt PyStr.ofString_eq_nil.mp hscope)
    rw [hstored.lookupScope hhash hscan hactive, hcs]
    rfl
  constructor
  case opens => exact fun halive => (verifyAPIKey_of_scope hne (hresolves halive)).1
  case low => exact fun halive => (verifyAPIKey_of_scope hne (hresolves halive)).2
  case closed =>
    intro hdead
    refine verifyAPIKey_unresolved ?_
    rw [hlegacy]
    by_cases hscan : scan.Failed
    · rw [lookupScope_failed hscan]
      rfl
    · by_cases hrevoked : ∃ time, APIKeyTable.Op.revoke draw.id time ∈ ops
      · have hall : AllRevoked sha256 (t'.run ops)
            (PyStr.ofChars (generatePlaintext draw.bytes)) := by
          intro row hrow hrowHash
          have heq : row.keyHash = hash := Except.ok.inj (hrowHash.symm.trans hhash)
          exact (hstored.only row hrow heq).2.2.mpr hrevoked
        rw [lookupScope_allRevoked hall]
        rfl
      · obtain rfl : scope = "" := (hdead.resolve_left hscan).resolve_left hrevoked
        rw [hstored.lookupScope hhash hscan hrevoked]
        rfl

/-- A key for writing, some time later. -/
theorem printed_key_answers_write :
    let draw : Draw := ⟨fun i => byte i.val, "k", TaskService.newYear⟩
    let token := generatePlaintext draw.bytes
    let request : Request := ⟨"GET", [], [], [⟨apiKeyHeader, encodeLatin1 token⟩], none⟩
    ∃ t', main transparentDigest draw "write" .empty = .ok (t', token ++ ['\n']) ∧
      ∀ scan : (t'.run [.revoke "j" TaskService.newYear]).Scan,
        Answers (verifyAPIKey transparentDigest scan (apiKey request)
            (some (PyStr.ofString "admin"))) token "write" (PyStr.ofString "admin")
          (scan.Failed ∨
            (∃ time, APIKeyTable.Op.revoke "k" time ∈ [.revoke "j" TaskService.newYear]) ∨
              "write" = "") := by
  intro draw token request
  have hhash : hashAPIKey transparentDigest (PyStr.ofChars token) =
      .ok (transparentDigest (token.map fun c => byte c.toNat)) := by
    rw [hashAPIKey, encode?_ascii (ascii_generatePlaintext draw.bytes)]
  obtain ⟨t', d, hcreate⟩ : ∃ t' d, APIKeyTable.empty.create
      (newRow draw "write" (transparentDigest (token.map fun c => byte c.toNat))) = .ok (t', d) :=
    ⟨_, _, dif_neg (by simp [APIKeyTable.empty])⟩
  have hmain : main transparentDigest draw "write" .empty = .ok (t', token ++ ['\n']) := by
    simp only [main, show generatePlaintext draw.bytes = token from rfl, hhash, hcreate]
  refine ⟨t', hmain, fun scan => ?_⟩
  exact printed_key_answers hmain hhash (by simp [APIKeyTable.empty]) (by simp [Creates]) scan
    (by simp [Presents, request]) _

end Taskq.KeyCreate
