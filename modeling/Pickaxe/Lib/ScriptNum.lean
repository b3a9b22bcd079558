/-
# Script numbers

The numbers on a script's stack: little-endian bytes with the sign in the highest bit, written as
short as possible.  Zero is the empty byte string.  An operation that takes a number refuses
one that is written longer than needed.
-/
import Mathlib.Tactic.NormNum
import Pickaxe.Lib.Bytes

namespace Pickaxe.Lib.Script

/-- The bytes a magnitude needs, with room for the sign bit. -/
def width (m : ℕ) : ℕ := if m = 0 then 0 else (m.log2 + 1) / 8 + 1

/-- A number in `size` bytes, the sign in the highest bit. -/
def signed (size : ℕ) (n : ℤ) : Bytes :=
  leBytes size (n.natAbs + if n < 0 then 2 ^ (8 * size - 1) else 0)

/-- The shortest encoding of a number. -/
def num (n : ℤ) : Bytes := signed (width n.natAbs) n

/-- The number some bytes stand for, however long they are. -/
def value (b : Bytes) : ℤ :=
  if b ≠ [] ∧ 2 ^ (8 * b.length - 1) ≤ fromLe b then -((fromLe b - 2 ^ (8 * b.length - 1) : ℕ) : ℤ)
  else fromLe b

/-- The number of bytes in their shortest form. -/
def toNum? (b : Bytes) : Option ℤ := if num (value b) = b then some (value b) else none

/-- Whether bytes count as true: all but the zeros. -/
def isTrue (b : Bytes) : Prop := value b ≠ 0

instance (b : Bytes) : Decidable (isTrue b) := inferInstanceAs (Decidable (value b ≠ 0))

/-! ## Widths -/

@[simp] lemma width_zero : width 0 = 0 := rfl

lemma width_pos {m : ℕ} (h : m ≠ 0) : 0 < width m := by
  rw [width, if_neg h]
  exact Nat.succ_pos _

/-- A magnitude leaves the sign bit of its width free. -/
lemma lt_two_pow_width {m : ℕ} (h : m ≠ 0) : m < 2 ^ (8 * width m - 1) := by
  have hlog : m < 2 ^ (m.log2 + 1) := Nat.lt_log2_self
  refine hlog.trans_le (Nat.pow_le_pow_right (by decide) ?_)
  rw [width, if_neg h]
  omega

/-- No shorter width does. -/
lemma width_le_iff {m size : ℕ} : width m ≤ size ↔ m < 2 ^ (8 * size - 1) := by
  by_cases hm : m = 0
  · rw [hm, width_zero]
    exact ⟨fun _ => Nat.two_pow_pos _, fun _ => Nat.zero_le _⟩
  · constructor
    · intro h
      exact (lt_two_pow_width hm).trans_le (Nat.pow_le_pow_right (by decide) (by omega))
    · intro h
      have hlog : m.log2 < 8 * size - 1 := (Nat.log2_lt hm).mpr h
      rw [width, if_neg hm]
      omega

@[simp] lemma length_signed (size : ℕ) (n : ℤ) : (signed size n).length = size := length_leBytes _ _

@[simp] lemma length_num (n : ℤ) : (num n).length = width n.natAbs := length_signed _ _

@[simp] lemma num_zero : num 0 = [] := rfl

@[simp] lemma num_one : num 1 = [1] := rfl

lemma signed_zero (size : ℕ) : signed size 0 = List.replicate size 0 := by
  refine fromLe_inj (by simp) ?_
  rw [signed, fromLe_leBytes]
  simp

/-! ## Reading a number back -/

lemma two_pow_size {size : ℕ} (h : size ≠ 0) : (256 : ℕ) ^ size = 2 * 2 ^ (8 * size - 1) := by
  rw [show (256 : ℕ) = 2 ^ 8 by rfl, ← pow_mul, ← pow_succ']
  congr 1
  omega

/-- A number that fits is read back. -/
lemma value_signed {size : ℕ} {n : ℤ} (hsize : size ≠ 0) (h : n.natAbs < 2 ^ (8 * size - 1)) :
    value (signed size n) = n := by
  have htop := two_pow_size hsize
  have hne : signed size n ≠ [] := by
    intro hnil
    have hlen := length_signed size n
    rw [hnil] at hlen
    exact hsize hlen.symm
  have hfrom : fromLe (signed size n) = n.natAbs + if n < 0 then 2 ^ (8 * size - 1) else 0 := by
    rw [signed]
    refine fromLe_leBytes_of_lt ?_
    rw [htop]
    split_ifs <;> omega
  rw [value, hfrom, length_signed]
  by_cases hneg : n < 0
  · rw [if_pos hneg, if_pos ⟨hne, Nat.le_add_left _ _⟩, Nat.add_sub_cancel]
    omega
  · rw [if_neg hneg, if_neg (fun hle => absurd hle.2 (by omega))]
    omega

@[simp] lemma value_num (n : ℤ) : value (num n) = n := by
  by_cases h : n.natAbs = 0
  · rw [Int.natAbs_eq_zero.mp h]
    rfl
  · exact value_signed (width_pos h).ne' (lt_two_pow_width h)

@[simp] lemma toNum?_num (n : ℤ) : toNum? (num n) = some n := by
  rw [toNum?, value_num, if_pos rfl]

lemma num_injective : Function.Injective num := fun a b h => by
  rw [← value_num a, h, value_num]

@[simp] lemma num_inj {a b : ℤ} : num a = num b ↔ a = b := num_injective.eq_iff

@[simp] lemma isTrue_num {n : ℤ} : isTrue (num n) ↔ n ≠ 0 := by
  rw [isTrue, value_num]

/-- The truth value an operation leaves. -/
def ofBool (b : Bool) : Bytes := num (if b then 1 else 0)

@[simp] lemma toNum?_ofBool (b : Bool) : toNum? (ofBool b) = some (if b then 1 else 0) := toNum?_num _

@[simp] lemma isTrue_ofBool {b : Bool} : isTrue (ofBool b) ↔ b = true := by
  cases b <;> decide

/-- Bytes without the sign bit are an unsigned number. -/
lemma value_eq_fromLe {b : Bytes} (h : fromLe b < 2 ^ (8 * b.length - 1)) : value b = fromLe b := by
  rw [value, if_neg (fun hle => absurd hle.2 (by omega))]

/-- The shortest encoding of a magnitude from its own bytes: one more if the sign bit is in use. -/
lemma num_fromLe (init : Bytes) {last : UInt8} (hlast : last.toNat ≠ 0) :
    num (fromLe (init ++ [last])) =
      if 0x80 ≤ last.toNat then init ++ [last] ++ [0] else init ++ [last] := by
  have hlt : last.toNat < 256 := last.toNat_lt
  have hfrom : fromLe (init ++ [last]) = fromLe init + 256 ^ init.length * last.toNat := by
    simp [fromLe_append, fromLe_cons]
  have hinit := fromLe_lt init
  have hpow : (256 : ℕ) ^ init.length = 2 ^ (8 * init.length) := by
    rw [show (256 : ℕ) = 2 ^ 8 by rfl, pow_mul]
  have htop : 2 ^ (8 * (init.length + 1) - 1) = 2 ^ (8 * init.length) * 128 := by
    rw [show 8 * (init.length + 1) - 1 = 8 * init.length + 7 by omega, pow_add]
    norm_num
  set m := fromLe (init ++ [last]) with hm
  -- the encoding is determined by its length and the number it reads as
  have hbytes : ∀ b : Bytes, fromLe b = m → width m = b.length → num m = b := by
    intro b hb hwidth
    have hpos : ¬ (m : ℤ) < 0 := by omega
    rw [num, signed, if_neg hpos, Nat.add_zero, Int.natAbs_natCast, hwidth, ← hb]
    exact leBytes_fromLe b
  rw [hpow] at hfrom hinit
  have hone : 2 ^ (8 * init.length) * 1 ≤ 2 ^ (8 * init.length) * last.toNat :=
    Nat.mul_le_mul_left _ (Nat.pos_of_ne_zero hlast)
  split_ifs with hsign
  · refine hbytes _ (by rw [fromLe_append]; simp [fromLe_cons, hm]) (le_antisymm ?_ ?_)
    · simp only [width_le_iff, List.length_append, List.length_singleton]
      have hmul : 2 ^ (8 * init.length) * last.toNat ≤ 2 ^ (8 * init.length) * 255 :=
        Nat.mul_le_mul_left _ (by omega)
      have hbig : 2 ^ (8 * (init.length + 1 + 1) - 1) = 2 ^ (8 * init.length) * 32768 := by
        rw [show 8 * (init.length + 1 + 1) - 1 = 8 * init.length + 15 by omega, pow_add]
        norm_num
      omega
    · simp only [List.length_append, List.length_singleton]
      have hmul : 2 ^ (8 * init.length) * 128 ≤ 2 ^ (8 * init.length) * last.toNat :=
        Nat.mul_le_mul_left _ hsign
      have hnot : ¬ width m ≤ init.length + 1 := by
        rw [width_le_iff]
        omega
      omega
  · refine hbytes _ hm.symm (le_antisymm ?_ ?_)
    · rw [width_le_iff, List.length_append, List.length_singleton, htop]
      have hmul : 2 ^ (8 * init.length) * last.toNat ≤ 2 ^ (8 * init.length) * 127 :=
        Nat.mul_le_mul_left _ (by omega)
      omega
    · rw [List.length_append, List.length_singleton]
      have hnot : ¬ width m ≤ init.length := by
        rw [width_le_iff]
        have hsub : 2 ^ (8 * init.length - 1) ≤ 2 ^ (8 * init.length) :=
          Nat.pow_le_pow_right (by decide) (by omega)
        omega
      omega

/-- Shortest forms of positive numbers: the last byte is not zero, or it keeps the sign bit of the one
before it free. -/
def Minimal (b : Bytes) : Prop :=
  ∃ (init : Bytes) (last : UInt8), last.toNat ≠ 0 ∧
    b = if 0x80 ≤ last.toNat then init ++ [last] ++ [0] else init ++ [last]

lemma Minimal.ne_nil {b : Bytes} (h : Minimal b) : b ≠ [] := by
  obtain ⟨init, last, -, rfl⟩ := h
  split_ifs <;> simp

lemma Minimal.num_fromLe {b : Bytes} (h : Minimal b) : num (fromLe b) = b := by
  obtain ⟨init, last, hlast, rfl⟩ := h
  have hbytes := Script.num_fromLe init hlast
  split_ifs with hsign
  · rw [if_pos hsign] at hbytes
    rw [fromLe_append _ [0]]
    simpa [fromLe_cons] using hbytes
  · rwa [if_neg hsign] at hbytes

/-- A number has one shortest form. -/
lemma Minimal.inj {a b : Bytes} (ha : Minimal a) (hb : Minimal b) (h : fromLe a = fromLe b) :
    a = b := by
  rw [← ha.num_fromLe, ← hb.num_fromLe, h]

/-- One byte stands for a small number only if it is that number. -/
lemma value_singleton {x : UInt8} {n : ℕ} (hn : 0 < n) (hlt : n < 128) :
    value [x] = n ↔ x.toNat = n := by
  have hx : x.toNat < 256 := x.toNat_lt
  have hfrom : fromLe [x] = x.toNat := by simp [fromLe_cons]
  have hsign : 2 ^ (8 * 1 - 1) = 128 := rfl
  rw [value, hfrom, List.length_singleton, hsign]
  split_ifs with h
  · omega
  · have hlow : x.toNat < 128 := not_le.mp fun hle => h ⟨List.cons_ne_nil x [], hle⟩
    omega

end Pickaxe.Lib.Script
