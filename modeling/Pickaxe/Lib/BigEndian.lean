/-
# Big-endian numbers

The number that a byte string has with its highest byte first.
-/
import Pickaxe.Lib.Sha256

namespace Pickaxe.Lib

open Sha256

/-- The number of a byte string, the highest byte first. -/
def fromBe (b : Bytes) : ℕ := fromLe b.reverse

@[simp] lemma fromBe_nil : fromBe [] = 0 := rfl

lemma fromBe_append (a b : Bytes) : fromBe (a ++ b) = 256 ^ b.length * fromBe a + fromBe b := by
  rw [fromBe, List.reverse_append, fromLe_append, List.length_reverse, Nat.add_comm, fromBe, fromBe]

lemma fromBe_cons (x : UInt8) (b : Bytes) :
    fromBe (x :: b) = 256 ^ b.length * x.toNat + fromBe b := by
  rw [← List.singleton_append, fromBe_append, fromBe, List.reverse_singleton, fromLe_cons, fromLe_nil]
  ring

lemma fromBe_lt (b : Bytes) : fromBe b < 256 ^ b.length := by
  have h := fromLe_lt b.reverse
  rwa [List.length_reverse] at h

lemma fromBe_beBytes {n v : ℕ} (h : v < 256 ^ n) : fromBe (beBytes n v) = v := by
  rw [fromBe, beBytes, List.reverse_reverse, fromLe_leBytes_of_lt h]

lemma beBytes_fromBe (b : Bytes) : beBytes b.length (fromBe b) = b := by
  have h := leBytes_fromLe b.reverse
  rw [List.length_reverse] at h
  rw [beBytes, fromBe, h, List.reverse_reverse]

lemma fromBe_inj {a b : Bytes} (hlen : a.length = b.length) (h : fromBe a = fromBe b) : a = b := by
  rw [← beBytes_fromBe a, ← beBytes_fromBe b, hlen, h]

lemma fromBe_replicate_zero (n : ℕ) : fromBe (List.replicate n 0) = 0 := by
  rw [fromBe, List.reverse_replicate, fromLe_replicate_zero]

end Pickaxe.Lib
