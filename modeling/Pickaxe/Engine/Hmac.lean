/-
# Messages of several blocks

The digest of a longer message is the fold of the compression over its blocks.  The engine writes the
blocks of its messages itself, also where a field begins a byte after a word: such a word is the low
byte of one word and the high bytes of the next.
-/
import Pickaxe.Engine.Standard
import Pickaxe.Lib.Drbg

namespace Pickaxe.Engine

open Lib

namespace Sha256

/-! ## Blocks -/

/-- The compression of several blocks. -/
lemma toState_foldl (blocks : List (Words 16)) (s : Words 8) :
    toState (blocks.foldl compress s) = Lib.Sha256.blocks blocks.length
      (blocks.flatMap fun block => block.toList.map UInt32.toNat) (toState s) := by
  induction blocks generalizing s with
  | nil => rfl
  | cons block blocks ih =>
    have hlen : (block.toList.map UInt32.toNat).length = 16 := by simp
    rw [List.foldl_cons, ih, toState_compress, List.length_cons, Lib.Sha256.blocks,
      List.flatMap_cons, List.take_left' hlen, List.drop_left' hlen]

/-- The digest of a message, from the blocks of its padding. -/
lemma digest_of_blocks {m : Bytes} (blocks : List (Words 16))
    (h : Lib.Sha256.words (Lib.Sha256.pad m) =
      blocks.flatMap fun block => block.toList.map UInt32.toNat) :
    Lib.Sha256.digest m = bytes (blocks.foldl compress INITIAL) := by
  have hlen : (Lib.Sha256.words (Lib.Sha256.pad m)).length = 16 * blocks.length := by
    rw [h, List.length_flatMap]
    simp [mul_comm]
  rw [Lib.Sha256.length_words] at hlen
  have hblocks : (Lib.Sha256.pad m).length / 64 = blocks.length := by omega
  apply ByteVec.ext
  rw [bytes_eq, toState_foldl, ← h, toState_initial, ← hblocks]
  rfl

/-! ## Words -/

/-- The bytes of words. -/
def wordBytes (l : List UInt32) : Bytes := l.flatMap fun x => Lib.Sha256.beBytes 4 x.toNat

lemma bytes_eq_wordBytes (s : Words 8) : (bytes s).bytes = wordBytes s.toList :=
  bytes_eq_flatMap s

@[simp] lemma length_wordBytes (l : List UInt32) : (wordBytes l).length = 4 * l.length := by
  rw [wordBytes, List.length_flatMap]
  simp [mul_comm]

lemma wordBytes_append (l l' : List UInt32) : wordBytes (l ++ l') = wordBytes l ++ wordBytes l' :=
  List.flatMap_append

lemma wordBytes_cons (x : UInt32) (l : List UInt32) :
    wordBytes (x :: l) = Lib.Sha256.beBytes 4 x.toNat ++ wordBytes l := rfl

/-- Words at the start of a byte string. -/
lemma words_wordBytes (l : List UInt32) (rest : Bytes) :
    Lib.Sha256.words (wordBytes l ++ rest) = l.map UInt32.toNat ++ Lib.Sha256.words rest := by
  induction l with
  | nil => rfl
  | cons x l ih =>
    rw [wordBytes_cons, List.append_assoc, Lib.Sha256.words_append (by simp),
      Lib.Sha256.words_beBytes x.toNat_lt, ih]
    rfl

/-- The digest of a message whose padding is whole words. -/
lemma digest_of_wordBytes {m : Bytes} (blocks : List (Words 16))
    (h : Lib.Sha256.pad m = wordBytes (blocks.flatMap List.Vector.toList)) :
    Lib.Sha256.digest m = bytes (blocks.foldl compress INITIAL) := by
  refine digest_of_blocks blocks ?_
  have hwords := words_wordBytes (blocks.flatMap List.Vector.toList) []
  have hnil : Lib.Sha256.words [] = [] := rfl
  rw [List.append_nil, hnil, List.append_nil] at hwords
  rw [h, hwords, List.map_flatMap]

/-- The word of a low byte and the high bytes of the next word. -/
def straddle (carry x : UInt32) : UInt32 := (carry <<< 24) ||| (x >>> 8)

/-- The words of a byte and the words after it. -/
def straddles : UInt32 → List UInt32 → List UInt32
  | _, [] => []
  | carry, x :: l => straddle carry x :: straddles x l

lemma toNat_straddle (carry x : UInt32) :
    (straddle carry x).toNat = 2 ^ 24 * (carry.toNat % 256) + x.toNat / 256 := by
  have hx := x.toNat_lt
  have hlow : x.toNat / 256 < 2 ^ 24 := by omega
  have hhigh : carry.toNat * 2 ^ 24 % 2 ^ 32 = 2 ^ 24 * (carry.toNat % 256) := by omega
  rw [straddle, UInt32.toNat_or, UInt32.toNat_shiftLeft, UInt32.toNat_shiftRight]
  change carry.toNat <<< 24 % 2 ^ 32 ||| x.toNat >>> 8 = _
  rw [Nat.shiftLeft_eq, Nat.shiftRight_eq_div_pow, hhigh]
  exact (Nat.two_pow_add_eq_or_of_lt hlow _).symm

lemma length_straddles (carry : UInt32) (l : List UInt32) : (straddles carry l).length = l.length := by
  induction l generalizing carry with
  | nil => rfl
  | cons x l ih => rw [straddles, List.length_cons, List.length_cons, ih]

lemma straddles_append (carry : UInt32) (l l' : List UInt32) :
    straddles carry (l ++ l') = straddles carry l ++ straddles (l.getLastD carry) l' := by
  induction l generalizing carry with
  | nil => rfl
  | cons x l ih => rw [List.cons_append, straddles, ih, straddles, List.getLastD_cons, List.cons_append]

/-- The byte that is left over of the words before. -/
def lastByte (carry : UInt32) (l : List UInt32) : UInt8 := (l.getLastD carry).toUInt8

lemma words_straddles (carry : UInt32) (l : List UInt32) (rest : Bytes) :
    Lib.Sha256.words (carry.toUInt8 :: (wordBytes l ++ rest)) =
      (straddles carry l).map UInt32.toNat ++
        Lib.Sha256.words (lastByte carry l :: rest) := by
  induction l generalizing carry with
  | nil => rfl
  | cons x l ih =>
    have hx := x.toNat_lt
    have hlast : lastByte carry (x :: l) = lastByte x l := by
      rw [lastByte, lastByte, List.getLastD_cons]
    have hbyte : UInt8.ofNat x.toNat = x.toUInt8 := by
      apply UInt8.toNat_inj.mp
      rw [UInt8.toNat_ofNat', UInt32.toNat_toUInt8]
    have hword : ((carry.toUInt8.toNat * 256 + (UInt8.ofNat (x.toNat / 256 / 256 / 256)).toNat) * 256 +
        (UInt8.ofNat (x.toNat / 256 / 256)).toNat) * 256 + (UInt8.ofNat (x.toNat / 256)).toNat =
        (straddle carry x).toNat := by
      rw [toNat_straddle, UInt8.toNat_ofNat', UInt8.toNat_ofNat', UInt8.toNat_ofNat',
        UInt32.toNat_toUInt8]
      omega
    rw [hlast, wordBytes_cons, Lib.Sha256.beBytes_four, List.cons_append, List.cons_append,
      List.cons_append, List.cons_append, List.cons_append, List.cons_append, List.cons_append,
      List.cons_append, List.nil_append, Lib.Sha256.words, hword, hbyte, ih, straddles]
    rfl

/-- The word in which a message ends, a byte after a word. -/
lemma words_end (carry : UInt32) (rest : Bytes) :
    Lib.Sha256.words (carry.toUInt8 :: 0x80 :: 0 :: 0 :: rest) =
      ((carry <<< 24) ||| 0x800000).toNat :: Lib.Sha256.words rest := by
  have hword : ((carry.toUInt8.toNat * 256 + (0x80 : UInt8).toNat) * 256 + (0 : UInt8).toNat) * 256 +
      (0 : UInt8).toNat = ((carry <<< 24) ||| 0x800000).toNat := by
    have h := toNat_straddle carry 0x80000000
    rw [straddle] at h
    change (carry <<< 24 ||| 0x800000).toNat = _ at h
    rw [h, UInt32.toNat_toUInt8]
    simp only [UInt8.toNat_ofNat, UInt32.toNat_ofNat]
    omega
  rw [Lib.Sha256.words, hword]

end Sha256

end Pickaxe.Engine
