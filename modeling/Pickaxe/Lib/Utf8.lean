/-
# UTF-8

Texts as bytes, and bytes read as a text, with a replacement character wherever they are none.
-/
import Pickaxe.Lib.Bytes

namespace Pickaxe.Lib

/-- A text as bytes. -/
def utf8 (text : List Char) : Bytes := text.flatMap String.utf8EncodeChar

lemma utf8_cons (c : Char) (text : List Char) :
    utf8 (c :: text) = String.utf8EncodeChar c ++ utf8 text := rfl

@[simp] lemma utf8_append (text text' : List Char) : utf8 (text ++ text') = utf8 text ++ utf8 text' :=
  List.flatMap_append

/-- A byte below 128 is a character. -/
lemma toNat_of_mem_utf8EncodeChar {b : UInt8} {c : Char} (hb : b ∈ String.utf8EncodeChar c)
    (h : b.toNat < 128) : b.toNat = c.toNat := by
  have hlow : ∀ n k : ℕ, n < 64 → 128 ≤ k → k + n < 256 →
      ¬ (UInt8.ofNat (n + k)).toNat < 128 := by
    intro n k hn hk hlt
    rw [UInt8.toNat_ofNat', Nat.mod_eq_of_lt (by omega)]
    omega
  rw [String.utf8EncodeChar] at hb
  split at hb
  · obtain rfl := List.mem_singleton.mp hb
    rw [UInt8.toNat_ofNat', Nat.mod_eq_of_lt (by omega)]
    rfl
  exfalso
  split at hb
  · simp only [List.mem_cons, List.not_mem_nil, or_false] at hb
    obtain rfl | rfl := hb
    · exact hlow _ 0xc0 (by omega) (by omega) (by omega) h
    · exact hlow _ 0x80 (by omega) (by omega) (by omega) h
  split at hb
  · simp only [List.mem_cons, List.not_mem_nil, or_false] at hb
    obtain rfl | rfl | rfl := hb
    · exact hlow _ 0xe0 (by omega) (by omega) (by omega) h
    · exact hlow _ 0x80 (by omega) (by omega) (by omega) h
    · exact hlow _ 0x80 (by omega) (by omega) (by omega) h
  · simp only [List.mem_cons, List.not_mem_nil, or_false] at hb
    obtain rfl | rfl | rfl | rfl := hb
    · exact hlow _ 0xf0 (by omega) (by omega) (by omega) h
    · exact hlow _ 0x80 (by omega) (by omega) (by omega) h
    · exact hlow _ 0x80 (by omega) (by omega) (by omega) h
    · exact hlow _ 0x80 (by omega) (by omega) (by omega) h

/-- A line feed is a byte of no other character. -/
lemma lineFeed_notMem_utf8 {text : List Char} (h : '\n' ∉ text) : (10 : UInt8) ∉ utf8 text := by
  intro hmem
  obtain ⟨c, hc, hb⟩ := List.mem_flatMap.mp hmem
  have hnat : (10 : UInt8).toNat = c.toNat := toNat_of_mem_utf8EncodeChar hb (by decide)
  obtain rfl : '\n' = c := Char.toNat_inj.mp hnat
  exact h hc

/-! ## Reading -/

/-- The bytes that may follow the first byte of a character. -/
def followers (first : UInt8) : List (UInt8 × UInt8) :=
  if 0xc2 ≤ first ∧ first ≤ 0xdf then [(0x80, 0xbf)]
  else if first = 0xe0 then [(0xa0, 0xbf), (0x80, 0xbf)]
  else if first = 0xed then [(0x80, 0x9f), (0x80, 0xbf)]
  else if 0xe1 ≤ first ∧ first ≤ 0xef then [(0x80, 0xbf), (0x80, 0xbf)]
  else if first = 0xf0 then [(0x90, 0xbf), (0x80, 0xbf), (0x80, 0xbf)]
  else if 0xf1 ≤ first ∧ first ≤ 0xf3 then [(0x80, 0xbf), (0x80, 0xbf), (0x80, 0xbf)]
  else if first = 0xf4 then [(0x80, 0x8f), (0x80, 0xbf), (0x80, 0xbf)]
  else []

/-- How many bytes are as they may follow. -/
def following : List (UInt8 × UInt8) → Bytes → ℕ
  | (low, high) :: ranges, b :: rest =>
    if low ≤ b ∧ b ≤ high then following ranges rest + 1 else 0
  | _, _ => 0

/-- `String::from_utf8_lossy`, of at most so many characters. -/
def fromUtf8LossyUpTo : ℕ → Bytes → List Char
  | 0, _ => []
  | _ + 1, [] => []
  | fuel + 1, first :: rest =>
    match (first :: rest).toByteArray.utf8DecodeChar? 0 with
    | some c => c :: fromUtf8LossyUpTo fuel ((first :: rest).drop c.utf8Size)
    -- as many bytes as could have begun a character are replaced together
    | none => Char.ofNat 0xfffd ::
      fromUtf8LossyUpTo fuel (rest.drop (following (followers first) rest))

/-- `String::from_utf8_lossy`. -/
def fromUtf8Lossy (bytes : Bytes) : List Char := fromUtf8LossyUpTo bytes.length bytes

/-- The bytes of a text are read as the text. -/
lemma fromUtf8LossyUpTo_utf8 {fuel : ℕ} {text : List Char} (h : (utf8 text).length ≤ fuel) :
    fromUtf8LossyUpTo fuel (utf8 text) = text := by
  induction text generalizing fuel with
  | nil => cases fuel <;> rfl
  | cons c text ih =>
    have hdecode : (utf8 (c :: text)).toByteArray.utf8DecodeChar? 0 = some c := by
      rw [utf8_cons, List.toByteArray_append]
      exact ByteArray.utf8DecodeChar?_utf8EncodeChar_append
    have hsize := String.length_utf8EncodeChar c
    have hpos := c.utf8Size_pos
    rw [utf8_cons, List.length_append, hsize] at h
    have hdrop : (utf8 (c :: text)).drop c.utf8Size = utf8 text := by
      rw [utf8_cons, ← hsize, List.drop_left]
    cases fuel with
    | zero => omega
    | succ fuel =>
      cases hbytes : utf8 (c :: text) with
      | nil =>
        rw [utf8_cons] at hbytes
        rw [(List.append_eq_nil_iff.mp hbytes).1] at hsize
        exact absurd hsize hpos.ne
      | cons first rest =>
        rw [hbytes] at hdecode hdrop
        rw [fromUtf8LossyUpTo, hdecode]
        dsimp only
        rw [hdrop, ih (by omega)]

lemma fromUtf8Lossy_utf8 (text : List Char) : fromUtf8Lossy (utf8 text) = text :=
  fromUtf8LossyUpTo_utf8 le_rfl

end Pickaxe.Lib
