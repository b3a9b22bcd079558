/-
# Messages of one block

Engines that hash many short messages write the padded block themselves and work on its words.
Here the words of a byte string, and the digest of a message that fits one block with its padding.
-/
import Pickaxe.Lib.Sha256

namespace Pickaxe.Lib.Sha256

@[simp] lemma length_beBytes (n v : ℕ) : (beBytes n v).length = n := by simp [beBytes]

/-! ## Words -/

/-- What is left after the last whole word is dropped. -/
lemma words_of_lt {b : Bytes} (h : b.length < 4) : words b = [] := by
  rw [words]
  rintro w x y z rest rfl
  simp only [List.length_cons] at h
  omega

lemma length_lt_of_short {b : Bytes}
    (h : ∀ (w x y z : UInt8) (rest : Bytes), b = w :: x :: y :: z :: rest → False) :
    b.length < 4 := by
  rcases b with _ | ⟨w, _ | ⟨x, _ | ⟨y, _ | ⟨z, rest⟩⟩⟩⟩
  · simp
  · simp
  · simp
  · simp
  · exact (h w x y z rest rfl).elim

lemma words_append {a : Bytes} (h : a.length % 4 = 0) (b : Bytes) :
    words (a ++ b) = words a ++ words b := by
  induction a using words.induct with
  | case1 w x y z rest ih =>
    have hrest : rest.length % 4 = 0 := by
      simp only [List.length_cons] at h
      omega
    simp only [List.cons_append, words]
    rw [ih hrest]
  | case2 a hshort =>
    have hlt := length_lt_of_short hshort
    obtain rfl : a = [] := List.length_eq_zero_iff.mp (by omega)
    rfl

lemma length_words (b : Bytes) : (words b).length = b.length / 4 := by
  induction b using words.induct with
  | case1 w x y z rest ih =>
    simp only [words, List.length_cons, ih]
    omega
  | case2 b hshort =>
    have hlt := length_lt_of_short hshort
    rw [words_of_lt hlt, List.length_nil, Nat.div_eq_of_lt hlt]

/-- A word is four bytes in their places. -/
lemma getElem_words {b : Bytes} {i : ℕ} (h : i < (words b).length) :
    (words b)[i] = (((b.getD (i * 4) 0).toNat * 256 + (b.getD (i * 4 + 1) 0).toNat) * 256 +
      (b.getD (i * 4 + 2) 0).toNat) * 256 + (b.getD (i * 4 + 3) 0).toNat := by
  induction b using words.induct generalizing i with
  | case1 w x y z rest ih =>
    cases i with
    | zero => rfl
    | succ i =>
      have hi : i < (words rest).length := by simpa [words] using h
      simpa [words, Nat.succ_mul, Nat.add_assoc] using ih hi
  | case2 b hshort =>
    rw [words_of_lt (length_lt_of_short hshort)] at h
    exact absurd h (Nat.not_lt_zero i)

/-- The four bytes of a word, the most significant first. -/
lemma beBytes_four (v : ℕ) :
    beBytes 4 v =
      [UInt8.ofNat (v / 256 / 256 / 256), UInt8.ofNat (v / 256 / 256), UInt8.ofNat (v / 256),
        UInt8.ofNat v] := rfl

lemma words_beBytes {v : ℕ} (h : v < 2 ^ 32) : words (beBytes 4 v) = [v] := by
  rw [beBytes_four, words, words]
  · simp only [UInt8.toNat_ofNat']
    congr 1
    omega
  · simp

/-- The words of little-endian bytes. -/
lemma words_leBytes (v : ℕ) : words (leBytes 4 v) = [fromLe (leBytes 4 v).reverse] := by
  simp only [leBytes, words, List.reverse_cons, List.reverse_nil, List.nil_append,
    List.cons_append, fromLe_cons, fromLe_nil]
  congr 1
  omega

/-- The words of a digest are the state. -/
lemma words_bytes {s : State} (ha : s.a < 2 ^ 32) (hb : s.b < 2 ^ 32) (hc : s.c < 2 ^ 32)
    (hd : s.d < 2 ^ 32) (he : s.e < 2 ^ 32) (hf : s.f < 2 ^ 32) (hg : s.g < 2 ^ 32)
    (hh : s.h < 2 ^ 32) : words s.bytes = [s.a, s.b, s.c, s.d, s.e, s.f, s.g, s.h] := by
  simp only [State.bytes, List.append_assoc]
  rw [words_append (by simp), words_append (by simp), words_append (by simp),
    words_append (by simp), words_append (by simp), words_append (by simp), words_append (by simp),
    words_beBytes ha, words_beBytes hb, words_beBytes hc, words_beBytes hd, words_beBytes he,
    words_beBytes hf, words_beBytes hg, words_beBytes hh]
  rfl

/-! ## Padding -/

lemma length_pad_of_le {m : Bytes} (h : m.length ≤ 55) : (pad m).length = 64 := by
  simp only [pad, List.length_append, List.length_replicate, List.length_singleton, length_beBytes]
  omega

/-- The digest of a message whose padding ends in the first block. -/
lemma digest_of_le {m : Bytes} (h : m.length ≤ 55) :
    (digest m).bytes = (compress initial (words (pad m))).bytes := by
  have hlen := length_pad_of_le h
  have hwords : (words (pad m)).length = 16 := by rw [length_words, hlen]
  change (blocks ((pad m).length / 64) (words (pad m)) initial).bytes = _
  rw [hlen, Nat.div_self (by decide), blocks, blocks, List.take_of_length_le hwords.le]

/-- The block of 32 bytes. -/
lemma pad_of_length {m : Bytes} (h : m.length = 32) :
    pad m = m ++ 0x80 :: (List.replicate 29 0 ++ [1, 0]) := by
  rw [pad, h, List.append_assoc, List.append_assoc]
  rfl

lemma words_pad {m : Bytes} (h : m.length = 32) :
    words (pad m) = words m ++ [0x80000000, 0, 0, 0, 0, 0, 0, 256] := by
  rw [pad_of_length h, words_append (by omega)]
  rfl

end Pickaxe.Lib.Sha256
