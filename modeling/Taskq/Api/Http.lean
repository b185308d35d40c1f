import Mathlib.Data.Rat.Defs
import Taskq.Lib.Json
import Taskq.Lib.Unicode

/-!
# Taskq.Api.Http

Requests as the middlewares and handlers see them.

Header names and values are bytes. The server has made names lower-case on the way in,
and a lookup compares them as they are. A value is read and written as Latin-1, where a
character is its byte: `encodeLatin1_latin1` is all that is ever needed of that codec.
-/

namespace Taskq.Http

open Unicode

/-- `bytes.decode("latin-1")`. -/
def latin1 (bytes : List Byte) : List Char := bytes.map fun b => Char.ofNat b.val

/-- `str.encode("latin-1")`, for a string below `U+0100`. -/
def encodeLatin1 (cs : List Char) : List Byte := cs.map fun c => byte c.toNat

theorem encodeLatin1_latin1 (bytes : List Byte) : encodeLatin1 (latin1 bytes) = bytes := by
  rw [encodeLatin1, latin1, List.map_map]
  refine List.map_id'' (fun b => ?_) bytes
  rw [Function.comp_apply, toNat_ofNat (by omega)]
  exact Fin.ext (byte_val_of_lt b.isLt)

/-- Strings that are their own Latin-1. -/
def IsLatin1 (cs : List Char) : Prop := ∀ c ∈ cs, c.toNat < 256

theorem latin1_encodeLatin1 {cs : List Char} (h : IsLatin1 cs) : latin1 (encodeLatin1 cs) = cs := by
  rw [encodeLatin1, latin1, List.map_map]
  refine (List.map_congr_left fun c hc => ?_).trans (List.map_id cs)
  rw [Function.comp_apply, byte_val_of_lt (h c hc), Char.ofNat_toNat, id]

theorem isLatin1_latin1 (bytes : List Byte) : IsLatin1 (latin1 bytes) := by
  intro c hc
  obtain ⟨b, -, rfl⟩ := List.mem_map.mp hc
  rw [toNat_ofNat (by omega)]
  exact b.isLt

theorem isLatin1_toString (n : ℤ) : IsLatin1 (toString n).toList := by
  have hnat : ∀ m : ℕ, IsLatin1 (toString m).toList := by
    intro m c hc
    rw [Nat.toString_eq_repr, Nat.toList_repr] at hc
    have hdigit := Char.isDigit_iff_toNat.mp
      (Nat.isDigit_of_mem_toDigits (by omega : 0 < 10) le_rfl hc)
    exact hdigit.2.trans_lt (by decide)
  cases n with
  | ofNat m => exact hnat m
  | negSucc m =>
      have hsign : toString (Int.negSucc m) = "-" ++ toString (m + 1) := rfl
      rw [hsign, String.toList_append]
      intro c hc
      rcases List.mem_append.mp hc with hc | hc
      · obtain rfl : c = '-' := by simpa using hc
        decide
      · exact hnat (m + 1) c hc

structure Header where
  name : List Byte
  value : List Byte
  deriving DecidableEq

/-- The first value under a name, decoded. -/
def getHeader (headers : List Header) (name : List Byte) : Option (List Char) :=
  (headers.find? (·.name = name)).map fun h => latin1 h.value

/-- `X-Correlation-Id`, as the server passes it on. -/
def correlationHeader : List Byte :=
  encodeLatin1 ['x', '-', 'c', 'o', 'r', 'r', 'e', 'l', 'a', 't', 'i', 'o', 'n', '-', 'i', 'd']

def apiKeyHeader : List Byte := encodeLatin1 ['x', '-', 'a', 'p', 'i', '-', 'k', 'e', 'y']

/-- What the layers around the routes read of a request. -/
structure Request where
  method : String
  /-- `scope["path"]`. -/
  path : List Char
  /-- `request.url.path`. -/
  urlPath : List Char
  headers : List Header
  /-- `request.client.host`. -/
  client : Option (List Char)
  deriving DecidableEq

end Taskq.Http
