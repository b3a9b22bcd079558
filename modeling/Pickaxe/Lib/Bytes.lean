/-
# Byte strings

Byte strings are lists of bytes.  This file sets up what a serialised format needs of
them: arrays of a fixed length, little-endian numbers of a given width, slices that fail
outside their bounds, and the comparison of two byte arrays as little-endian numbers.
-/
import Mathlib.Data.List.Basic
import Mathlib.Data.List.Induction
import Mathlib.Data.Nat.Basic
import Mathlib.Data.Nat.Digits.Defs
import Mathlib.Tactic.Ring
import Mathlib.Tactic.Linarith

namespace Pickaxe.Lib

/-- A byte string. -/
abbrev Bytes := List UInt8

/-! ## Arrays of a fixed length -/

/-- A byte string of length `n`. -/
@[ext] structure ByteVec (n : ℕ) where
  /-- The bytes of the array. -/
  bytes : Bytes
  /-- There are `n` of them. -/
  length_eq : bytes.length = n
deriving DecidableEq

namespace ByteVec

variable {n : ℕ}

@[simp] lemma length_bytes (v : ByteVec n) : v.bytes.length = n := v.length_eq

/-- The array of `n` zero bytes. -/
def zero (n : ℕ) : ByteVec n := ⟨List.replicate n 0, List.length_replicate⟩

@[simp] lemma bytes_zero : (zero n).bytes = List.replicate n 0 := rfl

/-- A byte string read as an array, when it has the right length. -/
def ofBytes? (n : ℕ) (b : Bytes) : Option (ByteVec n) :=
  if h : b.length = n then some ⟨b, h⟩ else none

@[simp] lemma ofBytes?_bytes (v : ByteVec n) : ofBytes? n v.bytes = some v := by
  simp [ofBytes?]

lemma ofBytes?_eq_some {b : Bytes} {v : ByteVec n} : ofBytes? n b = some v ↔ b = v.bytes := by
  constructor
  · intro h
    unfold ofBytes? at h
    split at h
    · cases h; rfl
    · cases h
  · rintro rfl
    exact ofBytes?_bytes v

/-- Two arrays inside two byte strings: equal strings have equal arrays and equal rests. -/
lemma append_inj {v w : ByteVec n} {r s : Bytes} (h : v.bytes ++ r = w.bytes ++ s) :
    v = w ∧ r = s := by
  obtain ⟨h1, h2⟩ := List.append_inj h (by simp)
  exact ⟨ByteVec.ext h1, h2⟩

end ByteVec

/-! ## Little-endian numbers -/

/-- The low `n` bytes of `v`, the least significant first. -/
def leBytes : ℕ → ℕ → Bytes
  | 0, _ => []
  | n + 1, v => UInt8.ofNat v :: leBytes n (v / 256)

/-- The number a little-endian byte string denotes. -/
def fromLe : Bytes → ℕ
  | [] => 0
  | b :: bs => b.toNat + 256 * fromLe bs

@[simp] lemma length_leBytes (n v : ℕ) : (leBytes n v).length = n := by
  induction n generalizing v with
  | zero => rfl
  | succ n ih => simp [leBytes, ih]

@[simp] lemma fromLe_nil : fromLe [] = 0 := rfl

lemma fromLe_cons (b : UInt8) (bs : Bytes) : fromLe (b :: bs) = b.toNat + 256 * fromLe bs := rfl

/-- The bytes are the number's digits to the base 256. -/
lemma fromLe_eq_ofDigits (b : Bytes) : fromLe b = Nat.ofDigits 256 (b.map UInt8.toNat) := by
  induction b with
  | nil => rfl
  | cons x b ih => rw [fromLe_cons, ih, List.map_cons, Nat.ofDigits_cons]

lemma lt_of_mem_map_toNat {b : Bytes} {d : ℕ} (h : d ∈ b.map UInt8.toNat) : d < 256 := by
  obtain ⟨x, -, rfl⟩ := List.mem_map.mp h
  exact x.toNat_lt

lemma fromLe_append (a b : Bytes) : fromLe (a ++ b) = fromLe a + 256 ^ a.length * fromLe b := by
  simp only [fromLe_eq_ofDigits, List.map_append, Nat.ofDigits_append, List.length_map]

@[simp] lemma fromLe_replicate_zero (n : ℕ) : fromLe (List.replicate n 0) = 0 := by
  rw [fromLe_eq_ofDigits, List.map_replicate]
  exact Nat.ofDigits_replicate_zero

lemma fromLe_lt (b : Bytes) : fromLe b < 256 ^ b.length := by
  have h := Nat.ofDigits_lt_base_pow_length (l := b.map UInt8.toNat) (by decide : 1 < 256)
    fun _ => lt_of_mem_map_toNat
  rwa [List.length_map, ← fromLe_eq_ofDigits] at h

lemma fromLe_inj {a b : Bytes} (hlen : a.length = b.length) (h : fromLe a = fromLe b) :
    a = b := by
  rw [fromLe_eq_ofDigits, fromLe_eq_ofDigits] at h
  have hdigits := Nat.ofDigits_inj_of_len_eq (by decide) (by rwa [List.length_map, List.length_map])
    (fun _ => lt_of_mem_map_toNat) (fun _ => lt_of_mem_map_toNat) h
  exact List.map_injective_iff.mpr (fun _ _ => UInt8.toNat_inj.mp) hdigits

/-- Reading the low `n` bytes of a number gives its residue. -/
lemma fromLe_leBytes (n v : ℕ) : fromLe (leBytes n v) = v % 256 ^ n := by
  induction n generalizing v with
  | zero => simp [leBytes, Nat.mod_one]
  | succ n ih =>
    have hb : (UInt8.ofNat v).toNat = v % 256 := by simp
    rw [leBytes, fromLe_cons, ih, hb, pow_succ', Nat.mod_mul]

lemma fromLe_leBytes_of_lt {n v : ℕ} (h : v < 256 ^ n) : fromLe (leBytes n v) = v := by
  rw [fromLe_leBytes, Nat.mod_eq_of_lt h]

/-- A byte string of length `n` is the `n` low bytes of the number it denotes. -/
lemma leBytes_fromLe (b : Bytes) : leBytes b.length (fromLe b) = b :=
  fromLe_inj (length_leBytes ..) (fromLe_leBytes_of_lt (fromLe_lt b))

lemma leBytes_inj {n v w : ℕ} (hv : v < 256 ^ n) (hw : w < 256 ^ n)
    (h : leBytes n v = leBytes n w) : v = w := by
  rw [← fromLe_leBytes_of_lt hv, ← fromLe_leBytes_of_lt hw, h]

/-- `u16::to_le_bytes`. -/
def u16Le (v : UInt16) : Bytes := leBytes 2 v.toNat

/-- `u32::to_le_bytes`. -/
def u32Le (v : UInt32) : Bytes := leBytes 4 v.toNat

/-- `u64::to_le_bytes`. -/
def u64Le (v : UInt64) : Bytes := leBytes 8 v.toNat

/-- `u16::from_le_bytes`. -/
def u16OfLe (b : Bytes) : UInt16 := UInt16.ofNat (fromLe b)

/-- `u32::from_le_bytes`. -/
def u32OfLe (b : Bytes) : UInt32 := UInt32.ofNat (fromLe b)

/-- `u64::from_le_bytes`. -/
def u64OfLe (b : Bytes) : UInt64 := UInt64.ofNat (fromLe b)

@[simp] lemma length_u16Le (v : UInt16) : (u16Le v).length = 2 := length_leBytes _ _

@[simp] lemma length_u32Le (v : UInt32) : (u32Le v).length = 4 := length_leBytes _ _

@[simp] lemma length_u64Le (v : UInt64) : (u64Le v).length = 8 := length_leBytes _ _

@[simp] lemma u16OfLe_u16Le (v : UInt16) : u16OfLe (u16Le v) = v := by
  rw [u16OfLe, u16Le, fromLe_leBytes_of_lt (by simpa using v.toNat_lt)]
  exact UInt16.ofNat_toNat

@[simp] lemma u32OfLe_u32Le (v : UInt32) : u32OfLe (u32Le v) = v := by
  rw [u32OfLe, u32Le, fromLe_leBytes_of_lt (by simpa using v.toNat_lt)]
  exact UInt32.ofNat_toNat

@[simp] lemma u64OfLe_u64Le (v : UInt64) : u64OfLe (u64Le v) = v := by
  rw [u64OfLe, u64Le, fromLe_leBytes_of_lt (by simpa using v.toNat_lt)]
  exact UInt64.ofNat_toNat

lemma u16Le_u16OfLe {b : Bytes} (h : b.length = 2) : u16Le (u16OfLe b) = b := by
  have hlt : fromLe b < 2 ^ 16 := by simpa [h] using fromLe_lt b
  rw [u16Le, u16OfLe, UInt16.toNat_ofNat_of_lt' hlt, ← h, leBytes_fromLe]

lemma u32Le_u32OfLe {b : Bytes} (h : b.length = 4) : u32Le (u32OfLe b) = b := by
  have hlt : fromLe b < 2 ^ 32 := by simpa [h] using fromLe_lt b
  rw [u32Le, u32OfLe, UInt32.toNat_ofNat_of_lt' hlt, ← h, leBytes_fromLe]

lemma u32Le_injective : Function.Injective u32Le := fun v w h => by
  rw [← u32OfLe_u32Le v, ← u32OfLe_u32Le w, h]

/-! ## Comparison as numbers -/

/-- `a.iter().rev().cmp(b.iter().rev())`: two byte strings compared from their last byte
on. -/
def revCmp (a b : Bytes) : Ordering := List.compareLex compare a.reverse b.reverse

/-- For strings of one length this is the comparison of the numbers they denote. -/
lemma revCmp_eq_compare {a b : Bytes} (h : a.length = b.length) :
    revCmp a b = compare (fromLe a) (fromLe b) := by
  induction a using List.reverseRecOn generalizing b with
  | nil =>
    obtain rfl : b = [] := List.length_eq_zero_iff.mp h.symm
    rfl
  | append_singleton a x ih =>
    rcases List.eq_nil_or_concat b with rfl | ⟨b, y, rfl⟩
    · simp at h
    rw [List.concat_eq_append] at h ⊢
    have hlen : a.length = b.length := by simpa using h
    have hcons : revCmp (a ++ [x]) (b ++ [y]) = (compare x y).then (revCmp a b) := by
      simp [revCmp, List.compareLex_cons_cons]
    have ha := fromLe_lt a
    have hb := fromLe_lt b
    rw [hlen] at ha
    have hxy : compare x y = compare x.toNat y.toNat := by
      simp only [compare, compareOfLessAndEq, UInt8.lt_iff_toNat_lt, ← UInt8.toNat_inj]
    rw [hcons, ih hlen, fromLe_append, fromLe_append, hlen, hxy]
    simp only [fromLe_cons, fromLe_nil, Nat.mul_zero, Nat.add_zero]
    rcases lt_trichotomy x.toNat y.toNat with hlt | heq | hgt
    · have hmul : 256 ^ b.length * x.toNat + 256 ^ b.length ≤ 256 ^ b.length * y.toNat := by
        rw [← Nat.mul_succ]
        exact Nat.mul_le_mul_left _ hlt
      have hfin : fromLe a + 256 ^ b.length * x.toNat < fromLe b + 256 ^ b.length * y.toNat := by
        omega
      rw [Nat.compare_eq_lt.mpr hlt, Nat.compare_eq_lt.mpr hfin]
      rfl
    · rw [heq, Nat.compare_eq_eq.mpr rfl]
      simp only [Ordering.eq_then]
      rcases lt_trichotomy (fromLe a) (fromLe b) with h1 | h1 | h1
      · rw [Nat.compare_eq_lt.mpr h1, Nat.compare_eq_lt.mpr (by omega)]
      · rw [Nat.compare_eq_eq.mpr h1, Nat.compare_eq_eq.mpr (by omega)]
      · rw [Nat.compare_eq_gt.mpr h1, Nat.compare_eq_gt.mpr (by omega)]
    · have hmul : 256 ^ b.length * y.toNat + 256 ^ b.length ≤ 256 ^ b.length * x.toNat := by
        rw [← Nat.mul_succ]
        exact Nat.mul_le_mul_left _ hgt
      have hfin : fromLe b + 256 ^ b.length * y.toNat < fromLe a + 256 ^ b.length * x.toNat := by
        omega
      rw [Nat.compare_eq_gt.mpr hgt, Nat.compare_eq_gt.mpr hfin]
      rfl

/-! ## Slices -/

/-- `bytes.get(from..to)`: the slice, when it lies within the string. -/
def slice? (b : Bytes) (start stop : ℕ) : Option Bytes :=
  if start ≤ stop ∧ stop ≤ b.length then some ((b.drop start).take (stop - start)) else none

/-- `bytes[from..to]` of a string known to be long enough. -/
def slice (b : Bytes) (start stop : ℕ) : Bytes := (b.drop start).take (stop - start)

lemma slice?_eq_some {b s : Bytes} {start stop : ℕ} :
    slice? b start stop = some s ↔ start ≤ stop ∧ stop ≤ b.length ∧ slice b start stop = s := by
  unfold slice? slice
  split
  · rename_i h
    simp [h.1, h.2]
  · rename_i h
    simp only [reduceCtorEq, false_iff]
    rintro ⟨h1, h2, -⟩
    exact h ⟨h1, h2⟩

lemma length_slice {b : Bytes} {start stop : ℕ} (h : stop ≤ b.length) :
    (slice b start stop).length = stop - start := by
  rw [slice, List.length_take, List.length_drop]
  omega

/-- The slice that starts after `a` and is as long as `m`. -/
lemma slice_append {a m r : Bytes} {start stop : ℕ} (ha : a.length = start)
    (hm : start + m.length = stop) : slice (a ++ m ++ r) start stop = m := by
  subst ha hm
  rw [slice, List.append_assoc, List.drop_left, Nat.add_sub_cancel_left, List.take_left]

lemma slice?_append {a m r : Bytes} {start stop : ℕ} (ha : a.length = start)
    (hm : start + m.length = stop) : slice? (a ++ m ++ r) start stop = some m := by
  refine slice?_eq_some.mpr ⟨by omega, ?_, slice_append ha hm⟩
  simp only [List.length_append]
  omega

/-- What stands from one place on is a byte and what stands after it. -/
lemma drop_eq_getD_cons {b : Bytes} {i : ℕ} (h : i < b.length) :
    b.drop i = b.getD i 0 :: b.drop (i + 1) := by
  rw [List.drop_eq_getElem_cons h, List.getD_eq_getElem?_getD, List.getElem?_eq_getElem h,
    Option.getD_some]

/-- What stands from one place on is a slice and what stands after it. -/
lemma drop_eq_slice_append (b : Bytes) {start stop : ℕ} (h : start ≤ stop) :
    b.drop start = slice b start stop ++ b.drop stop := by
  have hdrop : b.drop stop = (b.drop start).drop (stop - start) := by
    rw [List.drop_drop]
    congr 1
    omega
  rw [slice, hdrop, List.take_append_drop]

/-- A string cut at the two ends of a slice. -/
lemma slice_split (b : Bytes) {start stop : ℕ} (h : start ≤ stop) :
    b = b.take start ++ slice b start stop ++ b.drop stop := by
  rw [List.append_assoc, ← drop_eq_slice_append b h, List.take_append_drop]

end Pickaxe.Lib
