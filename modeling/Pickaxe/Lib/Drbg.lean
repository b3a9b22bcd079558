/-
# Deterministic nonces

HMAC over SHA-256, and the generator of RFC 6979 that draws candidates from it until one is accepted.
-/
import Pickaxe.Lib.Loop
import Pickaxe.Lib.Sha256Block

namespace Pickaxe.Lib

/-! ## HMAC -/

/-- A key of at most a block, under a pad. -/
def hmacKey (pad : UInt8) (key : Bytes) : Bytes :=
  (key ++ List.replicate (64 - key.length) 0).map (· ^^^ pad)

/-- HMAC over SHA-256. -/
def hmac (key m : Bytes) : ByteVec 32 :=
  let key := if key.length > 64 then (Sha256.digest key).bytes else key
  Sha256.digest (hmacKey 0x5c key ++ (Sha256.digest (hmacKey 0x36 key ++ m)).bytes)

/-! ## The generator -/

/-- The state of the generator. -/
structure Drbg where
  key : ByteVec 32
  value : ByteVec 32

namespace Drbg

/-- Take in a separator and some data. -/
def absorb (s : Drbg) (separator : UInt8) (data : Bytes) : Drbg :=
  let key := hmac s.key.bytes (s.value.bytes ++ separator :: data)
  ⟨key, hmac key.bytes s.value.bytes⟩

/-- The first state, of a seed. -/
def start (seed : Bytes) : Drbg :=
  ((⟨.zero 32, ⟨List.replicate 32 1, List.length_replicate⟩⟩ : Drbg).absorb 0 seed).absorb 1 seed

/-- Draw a value. -/
def draw (s : Drbg) : Drbg := ⟨s.key, hmac s.key.bytes s.value.bytes⟩

/-- Draw a value and refuse it. -/
def refuse (s : Drbg) : Drbg := s.draw.absorb 0 []

/-- The value that is drawn when `i` have been refused. -/
def candidate (s : Drbg) (i : ℕ) : ByteVec 32 := (refuse^[i] s).draw.value

lemma candidate_zero (s : Drbg) : s.candidate 0 = s.draw.value := rfl

lemma candidate_succ (s : Drbg) (i : ℕ) : s.candidate (i + 1) = s.refuse.candidate i := rfl

end Drbg

end Pickaxe.Lib
