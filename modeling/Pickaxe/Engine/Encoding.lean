/-
# Elements as bytes

Field elements and scalars as 32 big-endian bytes, and as the words that the shaders and SHA-256
read.
-/
import Pickaxe.Engine.Scalar
import Pickaxe.Engine.Standard
import Pickaxe.Lib.BigEndian

namespace Pickaxe.Engine

open Lib

/-- `Field::to_be_bytes`: the words, the last one first. -/
def Field.toBeBytes (self : Field) : ByteVec 32 := Sha256.bytes (reversed self.words)

namespace Scalar

/-- `Scalar::from_be_bytes`. -/
def fromBeBytes (bytes : ByteVec 32) : Scalar := fromBeWords (Sha256.beWords 8 bytes.bytes)

/-- `Scalar::to_be_bytes`. -/
def toBeBytes (self : Scalar) : ByteVec 32 := Field.toBeBytes ⟨self.words⟩

end Scalar

@[simp] lemma reversed_reversed (v : Words 8) : reversed (reversed v) = v := by
  apply List.Vector.eq
  rw [reversed, reversed, List.Vector.toList_mk, List.Vector.toList_mk, List.reverse_reverse]

/-- Big-endian bytes of words, the highest word first. -/
lemma fromBe_flatMap (l : List UInt32) :
    fromBe (l.flatMap fun x => Lib.Sha256.beBytes 4 x.toNat) = Words.listValue l.reverse := by
  induction l with
  | nil => rfl
  | cons x l ih =>
    have hlen : (l.flatMap fun x => Lib.Sha256.beBytes 4 x.toNat).length = l.length * 4 := by
      rw [List.length_flatMap]
      simp
    have hx : fromBe (Lib.Sha256.beBytes 4 x.toNat) = x.toNat := fromBe_beBytes x.toNat_lt
    rw [List.flatMap_cons, fromBe_append, ih, hx, hlen, List.reverse_cons, Words.listValue_append,
      List.length_reverse, Words.listValue, Words.listValue, show 256 = 2 ^ 8 by norm_num, ← pow_mul]
    ring_nf

namespace Sha256

/-- The number of the bytes of a state. -/
lemma fromBe_bytes (s : Words 8) : fromBe (bytes s).bytes = Words.value (reversed s) := by
  rw [bytes_eq_flatMap, fromBe_flatMap]
  rfl

lemma beWords_bytes (s : Words 8) : beWords 8 (bytes s).bytes = s := by
  have h := toNat_beWords (n := 8) (b := (bytes s).bytes) (by simp)
  rw [words_bytes] at h
  exact List.Vector.eq _ _ (List.map_injective_iff.mpr (fun _ _ => UInt32.toNat_inj.mp) h)

lemma flatMap_words {b : Bytes} (h : b.length % 4 = 0) :
    (Lib.Sha256.words b).flatMap (Lib.Sha256.beBytes 4) = b := by
  induction b using Lib.Sha256.words.induct with
  | case1 w x y z rest ih =>
    rw [List.length_cons, List.length_cons, List.length_cons, List.length_cons] at h
    have hvalue : fromBe [w, x, y, z] =
        ((w.toNat * 256 + x.toNat) * 256 + y.toNat) * 256 + z.toNat := by
      rw [fromBe_cons, fromBe_cons, fromBe_cons, fromBe_cons, fromBe_nil]
      simp only [List.length_cons, List.length_nil]
      ring
    have hword : Lib.Sha256.beBytes 4 (fromBe [w, x, y, z]) = [w, x, y, z] :=
      beBytes_fromBe [w, x, y, z]
    rw [Lib.Sha256.words, List.flatMap_cons, ih (by omega), ← hvalue, hword]
    rfl
  | case2 b hshort =>
    have hlt := Lib.Sha256.length_lt_of_short hshort
    rw [Lib.Sha256.words_of_lt hlt, List.length_eq_zero_iff.mp (by omega : b.length = 0)]
    rfl

lemma bytes_beWords (v : ByteVec 32) : bytes (beWords 8 v.bytes) = v := by
  apply ByteVec.ext
  have h := flatMap_words (b := v.bytes) (by simp)
  rw [← toNat_beWords (n := 8) (by simp), List.flatMap_map] at h
  rw [bytes_eq_flatMap, h]

/-- Words are the number of their bytes. -/
lemma value_beWords (v : ByteVec 32) :
    Words.value (reversed (beWords 8 v.bytes)) = fromBe v.bytes := by
  rw [← fromBe_bytes, bytes_beWords]

end Sha256

namespace Field

lemma fromBe_toBeBytes (self : Field) : fromBe self.toBeBytes.bytes = self.value := by
  rw [toBeBytes, Sha256.fromBe_bytes, reversed_reversed, value]

lemma toBeBytes_injective : Function.Injective toBeBytes := fun a b h => by
  apply value_injective
  rw [← fromBe_toBeBytes, h, fromBe_toBeBytes]

end Field

namespace Scalar

lemma fromBeBytes_eq (v : ByteVec 32) : fromBeBytes v = ofNat (fromBe v.bytes) := by
  rw [fromBeBytes, fromBeWords_eq, Sha256.value_beWords]

lemma fromBe_toBeBytes (self : Scalar) : fromBe self.toBeBytes.bytes = self.value :=
  Field.fromBe_toBeBytes ⟨self.words⟩

lemma value_fromBeBytes {v : ByteVec 32} (h : fromBe v.bytes < order) :
    (fromBeBytes v).value = fromBe v.bytes := by
  rw [fromBeBytes_eq, value_ofNat, Nat.mod_eq_of_lt h]

lemma canonical_fromBeBytes (v : ByteVec 32) : (fromBeBytes v).Canonical := by
  rw [fromBeBytes_eq]
  exact canonical_ofNat _

end Scalar

end Pickaxe.Engine
